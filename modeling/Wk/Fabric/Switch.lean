/-
# Wk.Fabric.Switch -- one step of the hub

`NetHub.step` polls every stack, routes what the stacks transmitted and what the
trunks brought in, and polls again.  A `Port` is a place where frames enter or leave
the fabric; beside the new hub, a step yields one `Handled` record for each frame it
took in, with the ports it pushed the frame to.

* `routedNets_ends`, `mem_routedNets`: the walk over the routers ends, with the
  networks a chain of routers joins to the first.
* `step_isolates`: every frame is handled once and as `Isolated` says, and the queues
  hold exactly the frames the records account for.
-/
import Wk.Fabric
import Wk.Library.Reach

namespace Wk.Fabric

open Wk.Library

set_option autoImplicit false

/-! ## Frames -/

/-- The TCP/IP library: a stack's state, what a poll makes of it and of the frames its
NIC received, and the destination a packet's header names. -/
structure Smoltcp (σ : Type) where
  boot : Ipv4 → Ipv6 → σ
  /-- The new state, what is left to receive, and what was transmitted. -/
  poll : σ → List Frame → σ × List Frame × List Frame
  joinMulticastGroup : σ → IpAddress → σ
  reapClosing : σ → σ
  ipv4Dst : Frame → Option Ipv4
  ipv6Dst : Frame → Option Ipv6

/-- The destination address of a raw frame: the IP version is in the first nibble. -/
def frameDst {σ : Type} (tcp : Smoltcp σ) (frame : Frame) : Option IpAddress :=
  match frame.head?.map fun b : UInt8 => (b >>> 4).toNat with
  | some 4 => (tcp.ipv4Dst frame).map .ipv4
  | some 6 => (tcp.ipv6Dst frame).map .ipv6
  | _ => none

/-- A multicast group: `224.0.0.0/4` or `ff00::/8`. -/
def isMulticast : IpAddress → Bool
  | .ipv4 a => a.o0 &&& 0xf0 = 0xe0
  | .ipv6 a => a.segments.get 0 >>> 8 = 0xff

/-- A destination a node reaches by talking to itself: `127.0.0.0/8` or `::1`. -/
def isLoopback : IpAddress → Bool
  | .ipv4 a => a.o0 = 127
  | .ipv6 a => a = Ipv6.localhost

/-- No group is a loopback destination. -/
theorem not_isLoopback_of_isMulticast {dst : IpAddress} (group : isMulticast dst = true) :
    isLoopback dst = false := by
  cases dst with
  | ipv4 a =>
    simp only [isMulticast, isLoopback, decide_eq_true_eq, decide_eq_false_iff_not] at group ⊢
    intro same
    rw [same] at group
    exact absurd group (by decide)
  | ipv6 a =>
    simp only [isMulticast, isLoopback, decide_eq_true_eq, decide_eq_false_iff_not] at group ⊢
    intro same
    rw [same] at group
    exact absurd group (by decide)

/-! ## Routers -/

/-- Two networks that a router joins. -/
def Share (routers : List (List NodeId)) (a b : NodeId) : Prop := ∃ r ∈ routers, a ∈ r ∧ b ∈ r

/-- What the routers of a network name, router by router. -/
def neighbours (routers : List (List NodeId)) (from_ : NodeId) : List NodeId :=
  (routers.filter fun r => r.contains from_).flatten

/-- Every network reachable from `net` across routers, `net` itself excluded.  The walk
is fuelled by the number of times a router names a network. -/
def routedNets (routers : List (List NodeId)) (net : NodeId) : List NodeId :=
  ((walk (neighbours routers) (routers.flatten.length + 2) [net] 0).getD []).tail

theorem mem_neighbours {routers : List (List NodeId)} {a b : NodeId} :
    b ∈ neighbours routers a ↔ Share routers a b := by
  simp [neighbours, Share, and_assoc]

/-- **The walk over the routers ends.** -/
theorem routedNets_ends (routers : List (List NodeId)) (net : NodeId) :
    ∃ seen, walk (neighbours routers) (routers.flatten.length + 2) [net] 0 = some seen ∧
      seen = net :: routedNets routers net ∧ Walking (neighbours routers) net seen seen.length := by
  have closed : ∀ x ∈ insert net routers.flatten.toFinset, ∀ y ∈ neighbours routers x,
      y ∈ insert net routers.flatten.toFinset := by
    intro x _ y near
    obtain ⟨r, member, _, names⟩ := mem_neighbours.1 near
    exact Finset.mem_insert_of_mem (List.mem_toFinset.2 (List.mem_flatten.2 ⟨r, member, names⟩))
  have few : (insert net routers.flatten.toFinset).card ≤ routers.flatten.length + 1 :=
    (Finset.card_insert_le _ _).trans (Nat.succ_le_succ (List.toFinset_card_le _))
  have ends : ∃ seen, walk (neighbours routers) (routers.flatten.length + 2) [net] 0 = some seen ∧
      Walking (neighbours routers) net seen seen.length :=
    walk_complete (insert net routers.flatten.toFinset) closed (Finset.mem_insert_self ..)
      (.begin (neighbours routers) net) (Nat.zero_le _) (by omega)
  obtain ⟨seen, ended, walking⟩ := ends
  refine ⟨seen, ended, ?_, walking⟩
  rw [routedNets, ended, Option.getD_some]
  cases seen with
  | nil => cases walking.first
  | cons first rest =>
    cases walking.first
    rfl

theorem nodup_routedNets (routers : List (List NodeId)) (net : NodeId) :
    (net :: routedNets routers net).Nodup := by
  obtain ⟨seen, _, split, walking⟩ := routedNets_ends routers net
  exact split ▸ walking.nodup

/-- The networks a frame on `net` may be delivered on. -/
theorem mem_cons_routedNets {routers : List (List NodeId)} {net n : NodeId} :
    n ∈ net :: routedNets routers net ↔ Relation.ReflTransGen (Share routers) net n := by
  obtain ⟨seen, _, split, walking⟩ := routedNets_ends routers net
  rw [← split, walking.mem_iff]
  simp only [mem_neighbours]

/-- **The routed networks** are the others a chain of routers joins to `net`. -/
theorem mem_routedNets {routers : List (List NodeId)} {net n : NodeId} :
    n ∈ routedNets routers net ↔ n ≠ net ∧ Relation.TransGen (Share routers) net n := by
  have whole := (mem_cons_routedNets : n ∈ net :: routedNets routers net ↔ _)
  have apart : net ∉ routedNets routers net := (List.nodup_cons.1 (nodup_routedNets routers net)).1
  constructor
  · intro member
    have other : n ≠ net := fun same => apart (same ▸ member)
    refine ⟨other, ?_⟩
    exact (Relation.reflTransGen_iff_eq_or_transGen.1
      (whole.1 (List.mem_cons_of_mem _ member))).resolve_left other
  · rintro ⟨other, chain⟩
    exact (List.mem_cons.1 (whole.2 chain.to_reflTransGen)).resolve_left other

/-! ## The step -/

/-- Where frames enter and leave the fabric: the NIC of a stack, or a trunk, by its
position in the hub's list. -/
inductive Port where
  | stack (k : Nat)
  | trunk (j : Nat)
  deriving DecidableEq, Repr

/-- A frame the hub takes in, with its sender and the network it is on. -/
structure Job where
  origin : Port
  net : NodeId
  frame : Frame
  deriving DecidableEq, Repr

/-- A frame the hub took in and the ports it pushed it to. -/
structure Handled extends Job where
  targets : List Port
  deriving DecidableEq, Repr

/-- What delivery looks up of a stack. -/
structure Route where
  net : NodeId
  ip : Ipv4
  ip6 : Ipv6
  deriving DecidableEq, Repr

def Route.owns (route : Route) (dst : IpAddress) : Bool :=
  dst = .ipv4 route.ip || dst = .ipv6 route.ip6

def Job.fromTrunk (job : Job) : Bool :=
  match job.origin with
  | .stack _ => false
  | .trunk _ => true

def NodeStack.route {σ : Type} (s : NodeStack σ) : Route := { net := s.net, ip := s.ip, ip6 := s.ip6 }

/-- Positions of the items that pass. -/
def positions {α : Type} (p : α → Bool) (xs : List α) : List Nat :=
  (List.range xs.length).filter fun k => (xs[k]?).any p

/-- The stacks on `net` or on a network routed to it. -/
def members (routes : List Route) (routers : List (List NodeId)) (net : NodeId) : List Nat :=
  let nets := net :: routedNets routers net
  positions (fun r => nets.contains r.net) routes

namespace NetHub

variable {σ : Type} (tcp : Smoltcp σ)

/-- Push a frame on the receive queue of a NIC, or on the outbound queue of a trunk. -/
def push (hub : NetHub σ) (port : Port) (frame : Frame) : NetHub σ :=
  match port with
  | .stack k =>
    { hub with nodeStacks := hub.nodeStacks.modify k fun s => { s with rx := s.rx ++ [frame] } }
  | .trunk j =>
    { hub with trunks := hub.trunks.modify j fun t => { t with outbound := t.outbound ++ [frame] } }

/-- Join a multicast group on a node's behalf. -/
def join (hub : NetHub σ) (k : Nat) (dst : IpAddress) : NetHub σ :=
  { hub with nodeStacks :=
      hub.nodeStacks.modify k fun s => { s with inner := tcp.joinMulticastGroup s.inner dst } }

/-- Let a frame out through every trunk on its network. -/
def letOut (hub : NetHub σ) (net : NodeId) (frame : Frame) : NetHub σ × List Port :=
  let outs := (positions (fun t => t.net = net) hub.trunks).map Port.trunk
  (outs.foldl (fun hub port => hub.push port frame) hub, outs)

/-- Deliver one frame: a multicast frame to every stack on its network or a routed one,
any other to the owner of its destination, on its own network first; what a stack sent
and nobody owns leaves through the trunks. -/
def deliver (routes : List Route) (hub : NetHub σ) (job : Job) : NetHub σ × List Port :=
  match frameDst tcp job.frame with
  | none => (hub, [])
  | some dst =>
    if isMulticast dst then
      let members := members routes hub.routers job.net
      let hub := members.foldl
        (fun hub k => (hub.join tcp k dst).push (.stack k) job.frame) hub
      if job.fromTrunk then (hub, members.map Port.stack)
      else
        let (hub, outs) := hub.letOut job.net job.frame
        (hub, members.map Port.stack ++ outs)
    else
      let owner := fun on => routes.findIdx? fun r => r.net = on && r.owns dst
      match (owner job.net).or ((routedNets hub.routers job.net).findSome? owner) with
      | some k => (hub.push (.stack k) job.frame, [.stack k])
      | none => if job.fromTrunk then (hub, []) else hub.letOut job.net job.frame

/-- Deliver a list of frames in order. -/
def deliverAll (routes : List Route) (hub : NetHub σ) : List Job → NetHub σ × List Handled
  | [] => (hub, [])
  | job :: jobs =>
    let (hub, targets) := hub.deliver tcp routes job
    let (hub, rest) := hub.deliverAll routes jobs
    (hub, { job with targets } :: rest)

/-- Whether a frame is its sender talking to itself. -/
def loops (frame : Frame) : Bool := (frameDst tcp frame).any isLoopback

/-- Poll a stack. -/
def pollStack (s : NodeStack σ) : NodeStack σ :=
  let (inner, rx, sent) := tcp.poll s.inner s.rx
  { s with inner, rx, tx := s.tx ++ sent }

/-- Poll a stack and take what it transmitted: loopback frames go straight back into
its own queue. -/
def collect (s : NodeStack σ) : NodeStack σ :=
  let s := pollStack tcp s
  { s with rx := s.rx ++ s.tx.filter fun frame => loops tcp frame, tx := [] }

/-- What stack `k` transmitted, as jobs. -/
def sent (k : Nat) (s : NodeStack σ) : List Job :=
  (pollStack tcp s).tx.map fun frame => { origin := .stack k, net := s.net, frame }

/-- Phase 1: poll each stack and collect what it transmitted. -/
def gather (hub : NetHub σ) : NetHub σ × List Handled × List Job :=
  let jobs := hub.nodeStacks.zipIdx.flatMap fun (s, k) => sent tcp k s
  ({ hub with nodeStacks := hub.nodeStacks.map (collect tcp) },
    (jobs.filter fun job => loops tcp job.frame).map fun job => { job with targets := [job.origin] },
    jobs.filter fun job => !loops tcp job.frame)

/-- What trunk `j` brought in, as jobs. -/
def injected (j : Nat) (t : TrunkPort) : List Job :=
  t.inbound.map fun frame => { origin := .trunk j, net := t.net, frame }

/-- Take everything trunk `j` has brought in. -/
def drainInbound (hub : NetHub σ) (j : Nat) : NetHub σ :=
  { hub with trunks := hub.trunks.modify j fun t => { t with inbound := [] } }

/-- Drain the inbound queue of each of these trunks into its network. -/
def drainTrunks (routes : List Route) (hub : NetHub σ) : List Nat → NetHub σ × List Handled
  | [] => (hub, [])
  | j :: js =>
    let jobs := (hub.trunks[j]?.map (injected j)).getD []
    let (hub, first) := (hub.drainInbound j).deliverAll tcp routes jobs
    let (hub, rest) := hub.drainTrunks routes js
    (hub, first ++ rest)

/-- Phases 1 and 2: gather, then deliver what the stacks sent and what the trunks
brought in. -/
def route (hub : NetHub σ) : NetHub σ × List Handled :=
  let routes := hub.nodeStacks.map NodeStack.route
  let (hub, looped, jobs) := hub.gather tcp
  let (hub, delivered) := hub.deliverAll tcp routes jobs
  let (hub, brought) := hub.drainTrunks tcp routes (List.range hub.trunks.length)
  (hub, looped ++ delivered ++ brought)

/-- Poll a stack again and reap its sockets that have drained. -/
def settleStack (s : NodeStack σ) : NodeStack σ :=
  let s := pollStack tcp s
  { s with inner := tcp.reapClosing s.inner }

/-- Phase 3: poll again now that frames were delivered. -/
def settle (hub : NetHub σ) : NetHub σ :=
  { hub with nodeStacks := hub.nodeStacks.map (settleStack tcp) }

/-- One driver step. -/
def step (hub : NetHub σ) : NetHub σ × List Handled :=
  let (hub, handled) := hub.route tcp
  (hub.settle tcp, handled)

end NetHub

/-! ## Isolation -/

/-- What delivery depends on: who is where, and what is joined. -/
structure Topology where
  routes : List Route
  trunks : List NodeId
  routers : List (List NodeId)

def NetHub.topology {σ : Type} (hub : NetHub σ) : Topology where
  routes := hub.nodeStacks.map NodeStack.route
  trunks := hub.trunks.map TrunkPort.net
  routers := hub.routers

namespace Topology

variable (top : Topology)

/-- Stack `k` is on `net` or on a network a chain of routers joins to it. -/
def Member (net : NodeId) (k : Nat) : Prop :=
  ∃ r, top.routes[k]? = some r ∧ Relation.ReflTransGen (Share top.routers) net r.net

/-- Of those, stack `k` has the address. -/
def Owner (net : NodeId) (dst : IpAddress) (k : Nat) : Prop :=
  ∃ r, top.routes[k]? = some r ∧ Relation.ReflTransGen (Share top.routers) net r.net ∧ r.owns dst = true

/-- Trunk `j` is attached to `net`. -/
def Outlet (net : NodeId) (j : Nat) : Prop := top.trunks[j]? = some net

end Topology

/-- A frame went where it may, and nowhere else. -/
structure Isolated {σ : Type} (tcp : Smoltcp σ) (top : Topology) (e : Handled) : Prop where
  once : e.targets.Nodup
  garbage : frameDst tcp e.frame = none → e.targets = []
  loopback : ∀ k dst, e.origin = .stack k → frameDst tcp e.frame = some dst →
    isLoopback dst = true → e.targets = [.stack k]
  multicast : ∀ dst, frameDst tcp e.frame = some dst → isMulticast dst = true →
    (∀ k, .stack k ∈ e.targets ↔ top.Member e.net k) ∧
    ∀ j, .trunk j ∈ e.targets ↔ e.fromTrunk = false ∧ top.Outlet e.net j
  unicast : ∀ dst, frameDst tcp e.frame = some dst → isMulticast dst = false →
    e.fromTrunk = true ∨ isLoopback dst = false →
    (∀ k, .stack k ∈ e.targets → top.Owner e.net dst k) ∧
    (∀ k k', .stack k ∈ e.targets → .stack k' ∈ e.targets → k = k') ∧
    ((∃ k, top.Owner e.net dst k) → ∃ k, .stack k ∈ e.targets) ∧
    ∀ j, .trunk j ∈ e.targets ↔
      e.fromTrunk = false ∧ top.Outlet e.net j ∧ ∀ k, ¬top.Owner e.net dst k
  split : e.fromTrunk = true → ∀ j, .trunk j ∉ e.targets

section Positions

variable {α : Type} {p : α → Bool} {xs : List α}

theorem mem_positions {k : Nat} : k ∈ positions p xs ↔ ∃ x, xs[k]? = some x ∧ p x = true := by
  rw [positions, List.mem_filter, List.mem_range, Option.any_eq_true]
  constructor
  · exact fun here => here.2
  · rintro ⟨x, found, passes⟩
    exact ⟨(List.getElem?_eq_some_iff.1 found).1, x, found, passes⟩

theorem nodup_positions (p : α → Bool) (xs : List α) : (positions p xs).Nodup :=
  List.nodup_range.filter _

end Positions

namespace NetHub

variable {σ : Type} {tcp : Smoltcp σ} {hub : NetHub σ}

/-- The search finds an owner, if there is one. -/
theorem owner_spec (top : Topology) (net : NodeId) (dst : IpAddress) :
    let owner := fun on => top.routes.findIdx? fun r => r.net = on && r.owns dst
    match (owner net).or ((routedNets top.routers net).findSome? owner) with
    | some k => top.Owner net dst k
    | none => ∀ k, ¬top.Owner net dst k := by
  intro owner
  have whole : (owner net).or ((routedNets top.routers net).findSome? owner) =
      (net :: routedNets top.routers net).findSome? owner := by
    rw [List.findSome?_cons]
    cases owner net <;> rfl
  rw [whole]
  cases found : (net :: routedNets top.routers net).findSome? owner with
  | some k =>
    obtain ⟨n, member, here⟩ := List.exists_of_findSome?_eq_some found
    obtain ⟨inside, passes, _⟩ := List.findIdx?_eq_some_iff_getElem.1 here
    simp only [Bool.and_eq_true, decide_eq_true_eq] at passes
    refine ⟨top.routes[k], List.getElem?_eq_getElem inside, ?_, passes.2⟩
    rw [passes.1]
    exact mem_cons_routedNets.1 member
  | none =>
    rintro k ⟨r, there, joined, owns⟩
    have missed := List.findSome?_eq_none_iff.1 found r.net (mem_cons_routedNets.2 joined)
    have fails := List.findIdx?_eq_none_iff.1 missed r (List.mem_of_getElem? there)
    simp [owns] at fails

end NetHub

/-! ## What is pushed where -/

/-- The frames pushed to a port, in order. -/
def arriving (port : Port) (pushes : List (Port × Frame)) : List Frame :=
  (pushes.filter fun push => push.1 = port).map Prod.snd

theorem arriving_append (port : Port) (xs ys : List (Port × Frame)) :
    arriving port (xs ++ ys) = arriving port xs ++ arriving port ys := by
  simp [arriving]

/-- A stack that has received `frames`, and whatever its state became. -/
def NodeStack.receive {σ : Type} (s : NodeStack σ) (inner : σ → σ) (frames : List Frame) : NodeStack σ :=
  { s with inner := inner s.inner, rx := s.rx ++ frames }

/-- A trunk that has let `frames` out, and may have been drained. -/
def TrunkPort.carry (t : TrunkPort) (frames : List Frame) (drained : Bool) : TrunkPort :=
  { t with outbound := t.outbound ++ frames, inbound := if drained then [] else t.inbound }

/-- `hub'` is `hub` with these frames pushed and these trunks' inbound queues drained. -/
structure Fed {σ : Type} (hub hub' : NetHub σ) (pushes : List (Port × Frame)) (drained : List Nat) :
    Prop where
  routers : hub'.routers = hub.routers
  nodeStacks : ∀ k, ∃ inner : σ → σ, hub'.nodeStacks[k]? =
    hub.nodeStacks[k]?.map fun s : NodeStack σ => s.receive inner (arriving (.stack k) pushes)
  trunks : ∀ j, hub'.trunks[j]? =
    hub.trunks[j]?.map fun t : TrunkPort => t.carry (arriving (.trunk j) pushes) (j ∈ drained)

namespace Fed

variable {σ : Type} {hub hub' hub'' : NetHub σ} {xs ys : List (Port × Frame)} {js ks : List Nat}

theorem refl (hub : NetHub σ) : Fed hub hub [] [] where
  routers := rfl
  nodeStacks k := ⟨id, by simp [arriving, NodeStack.receive]⟩
  trunks j := by simp [arriving, TrunkPort.carry]

theorem trans (first : Fed hub hub' xs js) (next : Fed hub' hub'' ys ks) :
    Fed hub hub'' (xs ++ ys) (js ++ ks) where
  routers := next.routers.trans first.routers
  nodeStacks k := by
    obtain ⟨f, before⟩ := first.nodeStacks k
    obtain ⟨g, after⟩ := next.nodeStacks k
    refine ⟨g ∘ f, ?_⟩
    rw [after, before, Option.map_map]
    simp [Function.comp_def, arriving_append, NodeStack.receive]
  trunks j := by
    rw [next.trunks j, first.trunks j, Option.map_map]
    congr 1
    funext t
    by_cases inFirst : j ∈ js <;> by_cases inNext : j ∈ ks <;>
      simp [TrunkPort.carry, arriving_append, inFirst, inNext]

/-- Delivery moves nobody. -/
theorem topology (fed : Fed hub hub' xs js) : hub'.topology = hub.topology := by
  have routes : hub'.nodeStacks.map NodeStack.route = hub.nodeStacks.map NodeStack.route := by
    refine List.ext_getElem? fun k => ?_
    obtain ⟨f, same⟩ := fed.nodeStacks k
    rw [List.getElem?_map, List.getElem?_map, same, Option.map_map]
    rfl
  have nets : hub'.trunks.map TrunkPort.net = hub.trunks.map TrunkPort.net := by
    refine List.ext_getElem? fun j => ?_
    rw [List.getElem?_map, List.getElem?_map, fed.trunks j, Option.map_map]
    rfl
  rw [NetHub.topology, NetHub.topology, routes, nets, fed.routers]

theorem push (hub : NetHub σ) (port : Port) (frame : Frame) :
    Fed hub (hub.push port frame) [(port, frame)] [] := by
  cases port with
  | stack k =>
    refine ⟨rfl, fun n => ⟨id, ?_⟩, fun j => by simp [NetHub.push, arriving, TrunkPort.carry]⟩
    rw [NetHub.push, List.getElem?_modify]
    by_cases here : k = n <;> simp [arriving, NodeStack.receive, here]
  | trunk j =>
    refine ⟨rfl, fun n => ⟨id, by simp [NetHub.push, arriving, NodeStack.receive]⟩, fun n => ?_⟩
    rw [NetHub.push, List.getElem?_modify]
    by_cases here : j = n <;> simp [arriving, TrunkPort.carry, here]

theorem join (tcp : Smoltcp σ) (hub : NetHub σ) (k : Nat) (dst : IpAddress) :
    Fed hub (hub.join tcp k dst) [] [] := by
  refine ⟨rfl, fun n => ?_, fun j => by simp [NetHub.join, arriving, TrunkPort.carry]⟩
  refine ⟨if k = n then fun inner => tcp.joinMulticastGroup inner dst else id, ?_⟩
  rw [NetHub.join, List.getElem?_modify]
  by_cases here : k = n <;> simp [arriving, NodeStack.receive, here]

/-- A loop each of whose turns pushes something. -/
theorem foldl {α : Type} {f : NetHub σ → α → NetHub σ} {g : α → List (Port × Frame)}
    (turn : ∀ hub x, Fed hub (f hub x) (g x) []) :
    ∀ (xs : List α) (hub : NetHub σ), Fed hub (xs.foldl f hub) (xs.flatMap g) []
  | [], hub => refl hub
  | x :: xs, hub => (turn hub x).trans (foldl turn xs (f hub x))

/-- Drain one trunk. -/
theorem drain (hub : NetHub σ) (j : Nat) :
    Fed hub (hub.drainInbound j) [] [j] := by
  refine ⟨rfl, fun n => ⟨id, by simp [NetHub.drainInbound, arriving, NodeStack.receive]⟩, fun n => ?_⟩
  rw [NetHub.drainInbound, List.getElem?_modify]
  by_cases here : j = n
  · simp [arriving, TrunkPort.carry, here]
  · simp [arriving, TrunkPort.carry, here, Ne.symm here]

end Fed

/-! ## One frame -/

section Deliver

variable {σ : Type} {tcp : Smoltcp σ}

/-- A frame let out has left through every trunk of its network, once each. -/
theorem letOut_spec (hub : NetHub σ) (net : NodeId) (frame : Frame) :
    Fed hub (hub.letOut net frame).1 ((hub.letOut net frame).2.map fun port => (port, frame)) [] ∧
      (hub.letOut net frame).2.Nodup ∧ (∀ k, .stack k ∉ (hub.letOut net frame).2) ∧
      ∀ j, .trunk j ∈ (hub.letOut net frame).2 ↔ hub.topology.Outlet net j := by
  have pushed := Fed.foldl (fun hub port => Fed.push hub port frame) (hub.letOut net frame).2 hub
  rw [← List.map_eq_flatMap] at pushed
  refine ⟨pushed, ?_, fun k member => ?_, fun j => ?_⟩
  · exact (nodup_positions _ _).map fun _ _ same => Port.trunk.inj same
  · obtain ⟨j, _, same⟩ := List.mem_map.1 member
    cases same
  · rw [NetHub.letOut, List.mem_map_of_injective fun _ _ same => Port.trunk.inj same, mem_positions]
    simp [Topology.Outlet, NetHub.topology]

/-- Flooding reaches the members. -/
theorem flood_spec (tcp : Smoltcp σ) (hub : NetHub σ) (members : List Nat) (dst : IpAddress) (frame : Frame) :
    Fed hub (members.foldl (fun hub k => (hub.join tcp k dst).push (.stack k) frame) hub)
      ((members.map Port.stack).map fun port => (port, frame)) [] := by
  rw [List.map_map, List.map_eq_flatMap]
  exact Fed.foldl (fun hub k => (Fed.join tcp hub k dst).trans (Fed.push _ (.stack k) frame)) members hub

theorem mem_members {top : Topology} {net : NodeId} {k : Nat} :
    k ∈ members top.routes top.routers net ↔ top.Member net k := by
  rw [members, mem_positions]
  simp only [List.contains_iff_mem, mem_cons_routedNets, Topology.Member]

variable {top : Topology} {job : Job} {dst : IpAddress} {targets : List Port}

theorem isolated_of_multicast (named : frameDst tcp job.frame = some dst) (group : isMulticast dst = true)
    (once : targets.Nodup) (inside : ∀ k, .stack k ∈ targets ↔ top.Member job.net k)
    (outside : ∀ j, .trunk j ∈ targets ↔ job.fromTrunk = false ∧ top.Outlet job.net j) :
    Isolated tcp top { job with targets } where
  once := once
  garbage none := by cases named.symm.trans none
  loopback k dst' _ here loop := by
    cases named.symm.trans here
    rw [not_isLoopback_of_isMulticast group] at loop
    cases loop
  multicast dst' here _ := ⟨inside, outside⟩
  unicast dst' here single := by
    cases named.symm.trans here
    rw [group] at single
    cases single
  split trunk j member := by
    have stack := ((outside j).1 member).1
    rw [show job.fromTrunk = true from trunk] at stack
    cases stack

theorem isolated_of_unicast (named : frameDst tcp job.frame = some dst) (single : isMulticast dst = false)
    (ready : job.fromTrunk = true ∨ isLoopback dst = false) (once : targets.Nodup)
    (owned : ∀ k, .stack k ∈ targets → top.Owner job.net dst k)
    (one : ∀ k k', .stack k ∈ targets → .stack k' ∈ targets → k = k')
    (found : (∃ k, top.Owner job.net dst k) → ∃ k, .stack k ∈ targets)
    (outside : ∀ j, .trunk j ∈ targets ↔
      job.fromTrunk = false ∧ top.Outlet job.net j ∧ ∀ k, ¬top.Owner job.net dst k) :
    Isolated tcp top { job with targets } where
  once := once
  garbage none := by cases named.symm.trans none
  loopback k dst' sender here loop := by
    cases named.symm.trans here
    rcases ready with trunk | plain
    · rw [Job.fromTrunk, show job.origin = .stack k from sender] at trunk
      cases trunk
    · rw [plain] at loop
      cases loop
  multicast dst' here group := by
    cases named.symm.trans here
    rw [single] at group
    cases group
  unicast dst' here _ _ := by
    cases named.symm.trans here
    exact ⟨owned, one, found, outside⟩
  split trunk j member := by
    have stack := ((outside j).1 member).1
    rw [show job.fromTrunk = true from trunk] at stack
    cases stack

/-- **One frame**: it is delivered as `Isolated` says, and pushed to the ports named. -/
theorem deliver_spec (hub : NetHub σ) (job : Job)
    (ready : job.fromTrunk = true ∨ NetHub.loops tcp job.frame = false) :
    Fed hub (hub.deliver tcp hub.topology.routes job).1
        ((hub.deliver tcp hub.topology.routes job).2.map fun port => (port, job.frame)) [] ∧
      Isolated tcp hub.topology { job with targets := (hub.deliver tcp hub.topology.routes job).2 } := by
  unfold NetHub.deliver
  cases named : frameDst tcp job.frame with
  | none =>
    exact ⟨.refl hub, List.nodup_nil, fun _ => rfl, fun k dst _ => (by simp [named]), (by simp [named]),
      (by simp [named]), fun _ _ => List.not_mem_nil⟩
  | some dst =>
    have plain : job.fromTrunk = true ∨ isLoopback dst = false := by
      rwa [NetHub.loops, named, Option.any_some] at ready
    dsimp only
    split
    · next group =>
        have flooded := flood_spec tcp hub (members hub.topology.routes hub.routers job.net)
          dst job.frame
        have reached : ∀ k, k ∈ members hub.topology.routes hub.routers job.net ↔
            hub.topology.Member job.net k := fun k => mem_members
        have nodup : (members hub.topology.routes hub.routers job.net).Nodup := nodup_positions _ _
        generalize members hub.topology.routes hub.routers job.net = ks at flooded reached nodup ⊢
        have ports : (ks.map Port.stack).Nodup := nodup.map fun _ _ same => Port.stack.inj same
        have inside : ∀ k, Port.stack k ∈ ks.map Port.stack ↔ hub.topology.Member job.net k :=
          fun k => (List.mem_map_of_injective fun _ _ same => Port.stack.inj same).trans (reached k)
        cases trunk : job.fromTrunk with
        | true =>
          refine ⟨flooded, isolated_of_multicast named group ports inside fun j => ?_⟩
          rw [trunk]
          simp
        | false =>
          have out := letOut_spec (ks.foldl
            (fun hub k => (hub.join tcp k dst).push (.stack k) job.frame) hub) job.net job.frame
          rw [flooded.topology] at out
          obtain ⟨left, once, noStack, outlets⟩ := out
          simp only [Bool.false_eq_true, if_false]
          refine ⟨?_, isolated_of_multicast named group ?_ (fun k => ?_) fun j => ?_⟩
          · have both := flooded.trans left
            rwa [← List.map_append] at both
          · exact ports.append once fun port inner outer => by
              obtain ⟨k, _, rfl⟩ := List.mem_map.1 inner
              exact noStack k outer
          · rw [← inside k, List.mem_append, or_iff_left (noStack k)]
          · rw [trunk, and_iff_right rfl, ← outlets j, List.mem_append, or_iff_right]
            simp
    · next single =>
        have apart : isMulticast dst = false := by simpa using single
        have spec := NetHub.owner_spec hub.topology job.net dst
        simp only [show hub.topology.routers = hub.routers from rfl] at spec
        split
        · next k found =>
            rw [found] at spec
            refine ⟨.push hub (.stack k) job.frame, isolated_of_unicast named apart plain
              (List.nodup_singleton _) ?_ ?_ (fun _ => ⟨k, List.mem_singleton_self _⟩) fun j => ?_⟩
            · intro k' member
              cases List.mem_singleton.1 member
              exact spec
            · intro k₁ k₂ first second
              cases List.mem_singleton.1 first
              cases List.mem_singleton.1 second
              rfl
            · refine iff_of_false (by simp) fun out => out.2.2 k spec
        · next found =>
            rw [found] at spec
            cases trunk : job.fromTrunk with
            | true =>
              refine ⟨.refl hub, isolated_of_unicast named apart plain List.nodup_nil nofun nofun
                (fun ⟨k, owner⟩ => absurd owner (spec k)) fun j => ?_⟩
              simp [trunk]
            | false =>
              obtain ⟨left, once, noStack, outlets⟩ := letOut_spec hub job.net job.frame
              refine ⟨left, isolated_of_unicast named apart plain once
                (fun k member => absurd member (noStack k)) (fun k _ member => absurd member (noStack k))
                (fun ⟨k, owner⟩ => absurd owner (spec k)) fun j => ?_⟩
              rw [trunk, and_iff_right rfl, and_iff_left spec]
              exact outlets j

end Deliver

/-! ## The whole step -/

/-- The pushes a record stands for. -/
def Handled.pushes (e : Handled) : List (Port × Frame) := e.targets.map fun port => (port, e.frame)

section Step

variable {σ : Type} {tcp : Smoltcp σ}

theorem deliverAll_spec (tcp : Smoltcp σ) : ∀ (jobs : List Job) (hub : NetHub σ),
    (∀ job ∈ jobs, job.fromTrunk = true ∨ NetHub.loops tcp job.frame = false) →
    Fed hub (hub.deliverAll tcp hub.topology.routes jobs).1
        ((hub.deliverAll tcp hub.topology.routes jobs).2.flatMap Handled.pushes) [] ∧
      (∀ e ∈ (hub.deliverAll tcp hub.topology.routes jobs).2, Isolated tcp hub.topology e) ∧
      (hub.deliverAll tcp hub.topology.routes jobs).2.map Handled.toJob = jobs
  | [], hub, _ => ⟨.refl hub, nofun, rfl⟩
  | job :: jobs, hub, ready => by
    obtain ⟨fed, isolated⟩ := deliver_spec hub job (ready job (List.mem_cons_self ..))
    have rest := deliverAll_spec tcp jobs (hub.deliver tcp hub.topology.routes job).1
      fun job member => ready job (List.mem_cons_of_mem _ member)
    rw [fed.topology] at rest
    obtain ⟨fedRest, isolatedRest, sameRest⟩ := rest
    refine ⟨fed.trans fedRest, fun e member => ?_, congrArg (job :: ·) sameRest⟩
    rcases List.mem_cons.1 member with rfl | later
    · exact isolated
    · exact isolatedRest e later

/-- What trunk `j` of the hub has brought in. -/
def NetHub.broughtBy (hub : NetHub σ) (j : Nat) : List Job :=
  (hub.trunks[j]?.map (NetHub.injected j)).getD []

theorem broughtBy_fed {hub hub' : NetHub σ} {pushes : List (Port × Frame)} {drained : List Nat}
    (fed : Fed hub hub' pushes drained) {j : Nat} (full : j ∉ drained) :
    hub'.broughtBy j = hub.broughtBy j := by
  have same : (NetHub.injected j ∘ fun t : TrunkPort => t.carry (arriving (.trunk j) pushes)
      (j ∈ drained)) = NetHub.injected j := by
    funext t
    simp [NetHub.injected, TrunkPort.carry, full]
  rw [NetHub.broughtBy, fed.trunks j, Option.map_map, same, NetHub.broughtBy]

theorem broughtBy_ready {hub : NetHub σ} {j : Nat} {job : Job} (member : job ∈ hub.broughtBy j) :
    job.fromTrunk = true := by
  unfold NetHub.broughtBy at member
  cases found : hub.trunks[j]? with
  | none =>
    rw [found] at member
    cases member
  | some t =>
    rw [found] at member
    obtain ⟨frame, _, rfl⟩ := List.mem_map.1 member
    rfl

theorem drainTrunks_spec (tcp : Smoltcp σ) : ∀ (js : List Nat) (hub : NetHub σ), js.Nodup →
    Fed hub (hub.drainTrunks tcp hub.topology.routes js).1
        ((hub.drainTrunks tcp hub.topology.routes js).2.flatMap Handled.pushes) js ∧
      (∀ e ∈ (hub.drainTrunks tcp hub.topology.routes js).2, Isolated tcp hub.topology e) ∧
      (hub.drainTrunks tcp hub.topology.routes js).2.map Handled.toJob = js.flatMap hub.broughtBy
  | [], hub, _ => ⟨.refl hub, nofun, rfl⟩
  | j :: js, hub, nodup => by
    obtain ⟨fresh, nodup⟩ := List.nodup_cons.1 nodup
    have drained := Fed.drain hub j
    have first := deliverAll_spec tcp (hub.broughtBy j) (hub.drainInbound j)
      fun job member => .inl (broughtBy_ready member)
    rw [drained.topology] at first
    obtain ⟨fed, isolated, same⟩ := first
    have before := drained.trans fed
    have rest := drainTrunks_spec tcp js
      ((hub.drainInbound j).deliverAll tcp hub.topology.routes (hub.broughtBy j)).1 nodup
    rw [before.topology] at rest
    obtain ⟨fedRest, isolatedRest, sameRest⟩ := rest
    have kept : js.flatMap ((hub.drainInbound j).deliverAll tcp hub.topology.routes
        (hub.broughtBy j)).1.broughtBy = js.flatMap hub.broughtBy := by
      refine List.flatMap_congr fun n member => broughtBy_fed before ?_
      rw [List.append_nil, List.mem_singleton]
      rintro rfl
      exact fresh member
    refine ⟨?_, fun e member => ?_, ?_⟩
    · have whole := before.trans fedRest
      rw [List.nil_append, ← List.flatMap_append] at whole
      exact whole
    · rcases List.mem_append.1 member with now | later
      · exact isolated e now
      · exact isolatedRest e later
    · have both := congrArg₂ (· ++ ·) same (sameRest.trans kept)
      rw [← List.map_append] at both
      exact both

/-- A loopback frame goes back to its sender. -/
theorem isolated_of_loops {top : Topology} {job : Job} {k : Nat} (sender : job.origin = .stack k)
    (loop : NetHub.loops tcp job.frame = true) :
    Isolated tcp top { job with targets := [job.origin] } := by
  obtain ⟨dst, named, back⟩ := (Option.any_eq_true _ _).1 loop
  have plain : isMulticast dst = false := by
    by_contra group
    rw [not_isLoopback_of_isMulticast (by simpa using group)] at back
    cases back
  have stack : job.fromTrunk = false := by rw [Job.fromTrunk, sender]
  refine ⟨List.nodup_singleton _, fun none => ?_, fun k' _ here _ _ => ?_, fun dst' here group => ?_,
    fun dst' here _ ready => ?_, fun trunk => ?_⟩
  · cases named.symm.trans none
  · exact congrArg (fun port => [port]) here
  · cases named.symm.trans here
    rw [plain] at group
    cases group
  · cases named.symm.trans here
    rcases ready with trunk | plain
    · rw [show job.fromTrunk = true from trunk] at stack
      cases stack
    · rw [back] at plain
      cases plain
  · rw [show job.fromTrunk = true from trunk] at stack
    cases stack

/-- Everything the stacks transmit in this step. -/
def NetHub.allSent (tcp : Smoltcp σ) (hub : NetHub σ) : List Job :=
  hub.nodeStacks.zipIdx.flatMap fun (s, k) => sent tcp k s

theorem mem_allSent {hub : NetHub σ} {job : Job} (member : job ∈ hub.allSent tcp) :
    ∃ k, job.origin = .stack k := by
  obtain ⟨⟨s, k⟩, _, inner⟩ := List.mem_flatMap.1 member
  obtain ⟨frame, _, rfl⟩ := List.mem_map.1 inner
  exact ⟨k, rfl⟩

theorem arriving_sent (port : Port) (i : Nat) (s : NodeStack σ) :
    arriving port (((NetHub.sent tcp i s).filter fun job => NetHub.loops tcp job.frame).flatMap
        fun job => [(job.origin, job.frame)]) =
      if port = .stack i then (NetHub.pollStack tcp s).tx.filter fun frame => NetHub.loops tcp frame
      else [] := by
  rw [← List.map_eq_flatMap, NetHub.sent, List.filter_map, List.map_map, arriving, List.filter_map,
    List.map_map]
  by_cases same : port = .stack i
  · simp [Function.comp_def, same]
  · simp [Function.comp_def, same, Ne.symm same]

/-- Of the frames that loop, each stack gets its own. -/
theorem arriving_looped (tcp : Smoltcp σ) : ∀ (ss : List (NodeStack σ)) (n k : Nat),
    arriving (.stack (n + k)) ((((ss.zipIdx n).flatMap fun (s, i) => NetHub.sent tcp i s).filter
        fun job => NetHub.loops tcp job.frame).flatMap fun job => [(job.origin, job.frame)]) =
      (ss[k]?.map fun s : NodeStack σ =>
        (NetHub.pollStack tcp s).tx.filter fun frame => NetHub.loops tcp frame).getD []
  | [], n, k => by simp [arriving]
  | s :: ss, n, k => by
    rw [List.zipIdx_cons, List.flatMap_cons, List.filter_append, List.flatMap_append, arriving_append,
      arriving_sent]
    cases k with
    | zero =>
      have later : ∀ (ss : List (NodeStack σ)) (m : Nat), n < m →
          arriving (.stack n) ((((ss.zipIdx m).flatMap fun (s, i) => NetHub.sent tcp i s).filter
            fun job => NetHub.loops tcp job.frame).flatMap fun job => [(job.origin, job.frame)]) = [] := by
        intro ss
        induction ss with
        | nil => intro m _; simp [arriving]
        | cons s ss ih =>
          intro m less
          rw [List.zipIdx_cons, List.flatMap_cons, List.filter_append, List.flatMap_append,
            arriving_append, arriving_sent, ih (m + 1) (by omega), if_neg, List.append_nil]
          simpa using Nat.ne_of_lt less
      simp [later ss (n + 1) (by omega)]
    | succ k =>
      have other : (Port.stack (n + (k + 1)) = .stack n) = False := by simp
      have shift : n + (k + 1) = n + 1 + k := by omega
      simp only [other, if_false, List.nil_append, List.getElem?_cons_succ]
      rw [shift]
      exact arriving_looped tcp ss (n + 1) k

/-- The records of the frames that loop. -/
def NetHub.looped (tcp : Smoltcp σ) (hub : NetHub σ) : List Handled :=
  ((hub.allSent tcp).filter fun job => loops tcp job.frame).map
    fun job => { job with targets := [job.origin] }

theorem looped_pushes (hub : NetHub σ) : (hub.looped tcp).flatMap Handled.pushes =
    ((hub.allSent tcp).filter fun job => NetHub.loops tcp job.frame).flatMap
      fun job => [(job.origin, job.frame)] := by
  rw [NetHub.looped, List.flatMap_map]
  rfl

/-- No frame that loops goes to a trunk. -/
theorem arriving_trunk_looped (hub : NetHub σ) (j : Nat) :
    arriving (.trunk j) (((hub.allSent tcp).filter fun job => NetHub.loops tcp job.frame).flatMap
      fun job => [(job.origin, job.frame)]) = [] := by
  rw [arriving, List.map_eq_nil_iff, List.filter_eq_nil_iff]
  intro push member
  obtain ⟨job, inner, here⟩ := List.mem_flatMap.1 member
  obtain ⟨k, sender⟩ := mem_allSent (List.mem_filter.1 inner).1
  rw [List.mem_singleton.1 here, sender]
  simp

/-- Phases 1 and 2: what loops, and then what is delivered. -/
theorem route_spec (tcp : Smoltcp σ) (hub : NetHub σ) : ∃ later : List Handled,
    (hub.route tcp).2 = hub.looped tcp ++ later ∧
    Fed (hub.gather tcp).1 (hub.route tcp).1 (later.flatMap Handled.pushes)
      (List.range hub.trunks.length) ∧
    (∀ e ∈ later, Isolated tcp hub.topology e) ∧
    later.map Handled.toJob = ((hub.allSent tcp).filter fun job => !NetHub.loops tcp job.frame) ++
      (List.range hub.trunks.length).flatMap hub.broughtBy := by
  have here : (hub.gather tcp).1.topology = hub.topology := by
    have routes : (hub.nodeStacks.map (NetHub.collect tcp)).map NodeStack.route =
        hub.nodeStacks.map NodeStack.route := by
      rw [List.map_map]
      rfl
    rw [NetHub.topology, NetHub.topology, ← routes]
    rfl
  have delivered := deliverAll_spec tcp
    ((hub.allSent tcp).filter fun job => !NetHub.loops tcp job.frame) (hub.gather tcp).1
    fun job member => .inr (by simpa using (List.mem_filter.1 member).2)
  rw [here] at delivered
  obtain ⟨fed, isolated, same⟩ := delivered
  generalize out : (hub.gather tcp).1.deliverAll tcp hub.topology.routes
    ((hub.allSent tcp).filter fun job => !NetHub.loops tcp job.frame) = result at fed isolated same
  have brought := drainTrunks_spec tcp (List.range hub.trunks.length) result.1 List.nodup_range
  rw [fed.topology, here] at brought
  obtain ⟨fedRest, isolatedRest, sameRest⟩ := brought
  have count : result.1.trunks.length = hub.trunks.length := by
    have nets := congrArg (fun top : Topology => top.trunks.length) (fed.topology.trans here)
    simpa [NetHub.topology] using nets
  have routed : hub.route tcp =
      ((result.1.drainTrunks tcp hub.topology.routes (List.range hub.trunks.length)).1,
        hub.looped tcp ++ result.2 ++
          (result.1.drainTrunks tcp hub.topology.routes (List.range hub.trunks.length)).2) := by
    rw [← count, ← out]
    rfl
  refine ⟨result.2 ++ (result.1.drainTrunks tcp hub.topology.routes (List.range hub.trunks.length)).2,
    ?_, ?_, fun e member => ?_, ?_⟩
  · rw [routed, List.append_assoc]
  · have whole := fed.trans fedRest
    rw [List.nil_append, ← List.flatMap_append] at whole
    rw [routed]
    exact whole
  · rcases List.mem_append.1 member with now | later
    · exact isolated e now
    · exact isolatedRest e later
  · rw [List.map_append, same, sameRest]
    congr 1
    exact List.flatMap_congr fun j _ => broughtBy_fed fed List.not_mem_nil

/-- **One step of the hub.** Every frame is handled once and goes where it may; each
stack and each trunk has received the frames pushed to it and no others; and the walk
over the routers ends with the transitive closure of sharing one. -/
theorem step_isolates (tcp : Smoltcp σ) (hub : NetHub σ) :
    (∀ e ∈ (hub.step tcp).2, Isolated tcp hub.topology e) ∧
    ((hub.step tcp).2.map Handled.toJob).Perm
      (hub.allSent tcp ++ (List.range hub.trunks.length).flatMap hub.broughtBy) ∧
    (∀ (k : Nat) (s : NodeStack σ), hub.nodeStacks[k]? = some s → ∃ inner,
      (hub.step tcp).1.nodeStacks[k]? = some (NetHub.settleStack tcp
        { NetHub.pollStack tcp s with
          inner
          tx := []
          rx := (NetHub.pollStack tcp s).rx ++
            arriving (.stack k) ((hub.step tcp).2.flatMap Handled.pushes) })) ∧
    (∀ (j : Nat) (t : TrunkPort), hub.trunks[j]? = some t → (hub.step tcp).1.trunks[j]? = some
      { t with
        outbound := t.outbound ++ arriving (.trunk j) ((hub.step tcp).2.flatMap Handled.pushes)
        inbound := [] }) ∧
    ∀ net, (∃ seen, walk (neighbours hub.routers) (hub.routers.flatten.length + 2) [net] 0 = some seen ∧
        seen = net :: routedNets hub.routers net) ∧
      (routedNets hub.routers net).Nodup ∧
      ∀ n, n ∈ routedNets hub.routers net ↔ n ≠ net ∧ Relation.TransGen (Share hub.routers) net n := by
  obtain ⟨later, records, fed, isolated, same⟩ := route_spec tcp hub
  have handled : (hub.step tcp).2 = hub.looped tcp ++ later := records
  refine ⟨fun e member => ?_, ?_, fun k s found => ?_, fun j t found => ?_, fun net => ?_⟩
  · rw [handled] at member
    rcases List.mem_append.1 member with looped | routed
    · obtain ⟨job, inner, rfl⟩ := List.mem_map.1 looped
      obtain ⟨sent, loop⟩ := List.mem_filter.1 inner
      obtain ⟨k, sender⟩ := mem_allSent sent
      exact isolated_of_loops sender loop
    · exact isolated e routed
  · have jobs : (hub.looped tcp).map Handled.toJob =
        (hub.allSent tcp).filter fun job => NetHub.loops tcp job.frame := by
      rw [NetHub.looped, List.map_map]
      exact List.map_id _
    rw [handled, List.map_append, jobs, same, ← List.append_assoc]
    exact (List.filter_append_perm _ _).append_right _
  · obtain ⟨inner, after⟩ := fed.nodeStacks k
    have gathered : (hub.gather tcp).1.nodeStacks[k]? = some (NetHub.collect tcp s) := by
      rw [NetHub.gather, List.getElem?_map, found]
      rfl
    rw [gathered, Option.map_some] at after
    refine ⟨inner (NetHub.collect tcp s).inner, ?_⟩
    have stepped : (hub.step tcp).1.nodeStacks[k]? =
        (hub.route tcp).1.nodeStacks[k]?.map (NetHub.settleStack tcp) := List.getElem?_map ..
    have own := arriving_looped tcp hub.nodeStacks 0 k
    rw [Nat.zero_add, found, Option.map_some, Option.getD_some] at own
    rw [stepped, after, handled, List.flatMap_append, arriving_append, looped_pushes, NetHub.allSent, own]
    rw [Option.map_some, ← List.append_assoc]
    rfl
  · have after := fed.trunks j
    have inRange : j ∈ List.range hub.trunks.length :=
      List.mem_range.2 (List.getElem?_eq_some_iff.1 found).1
    have kept : (hub.gather tcp).1.trunks[j]? = some t := found
    have stepped : (hub.step tcp).1.trunks[j]? = (hub.route tcp).1.trunks[j]? := rfl
    rw [stepped, after, kept, handled, List.flatMap_append, arriving_append, looped_pushes,
      arriving_trunk_looped, List.nil_append]
    simp [TrunkPort.carry, inRange]
  · obtain ⟨seen, ended, split, _⟩ := routedNets_ends hub.routers net
    exact ⟨⟨seen, ended, split⟩, (List.nodup_cons.1 (nodup_routedNets hub.routers net)).2,
      fun n => mem_routedNets⟩

end Step

end Wk.Fabric
