/-
# Wk.Fabric.Ephemeral -- the local ports that are chosen automatically

The node and the TCP side of a port forward each choose local ports with a counter of their own.
A ledger beside the run says of every socket, bound socket and accept stream at which choice
its port was chosen.

* `Stepped.step`: a call of the node takes what its source gives.
* `ports_apart`: while no choice comes to a port that a live one of the same protocol still has,
  the holders of a chosen port all have it from that one choice, and it is in the range.

Poles: `ports_meet` (a connection that outlives a round of the counter), `ports_apart_greeting`.
-/
import Wk.Fabric.Ports

namespace Wk.Fabric

open Wk.Library

set_option autoImplicit false

section Stack

variable {S : Type} (lib : SocketLib S) (port : S → Option (SockKind × Nat))

/-! ## The node -/

namespace NetNode

def tcpSource (w : NetNode S) (i : Nat) (f : TcpSock → Source SockKind PortHolder) : Source SockKind PortHolder :=
  match w.resource i with
  | some (.tcp s) => f s
  | _ => .idle

def tcp3Source (w : NetNode S) (i : Nat) (f : TcpSocket → Source SockKind PortHolder) : Source SockKind PortHolder :=
  match w.resource i with
  | some (.tcp3 s) => f s
  | _ => .idle

def udpSource (w : NetNode S) (i : Nat) (f : UdpSock → Source SockKind PortHolder) : Source SockKind PortHolder :=
  match w.resource i with
  | some (.udp s) => f s
  | _ => .idle

def udp3Source (w : NetNode S) (i : Nat) (f : UdpSock → Source SockKind PortHolder) : Source SockKind PortHolder :=
  match w.resource i with
  | some (.udp3 s) => f s
  | _ => .idle

/-- Where a call has the port from that it takes. -/
def source (w : NetNode S) : SocketCall S → Source SockKind PortHolder
  | .startBind i addr => w.tcpSource i fun _ => TcpSock.startBindSource addr
  | .finishBind i => w.tcpSource i TcpSock.finishBindSource
  | .startConnect i remote => w.tcpSource i fun _ => TcpSock.startConnectSource remote
  | .startListen i => w.tcpSource i fun _ => .shares .tcp (.resource i)
  | .accept i => w.tcpSource i fun _ => .shares .tcp (.resource i)
  | .bind3 i addr => w.tcp3Source i fun s => s.bindSource addr
  | .connect3 i remote => w.tcp3Source i fun s => s.connectSource i remote
  | .listen3 i => w.tcp3Source i fun s => s.listenSource i
  | .produce p => .shares .tcp (.producer p)
  | .finishBindUdp i => w.udpSource i UdpSock.finishBindSource
  | .bindUdp3 i addr => w.udp3Source i fun s => s.bindSource addr
  | .connectUdp3 i remote => w.udp3Source i fun s => s.connectSource remote
  | .sendUdp3 i _ => w.udp3Source i UdpSock.ensureBoundSource
  | _ => .idle

/-- The ports that are held. -/
def holds (w : NetNode S) : PortHolder → Option (SockKind × Nat)
  | .socket h => w.stack.portAt port h
  | .resource i => (w.resource i).bind Resource.boundTo
  | .producer p =>
    (w.producers[p]?).bind fun a => if w.stack.serves (w.pools.getD a.pool []) then some (.tcp, a.port) else none

/-- The claims of the shared pools were given out, and the producers have their pools. -/
structure Dated (w : NetNode S) : Prop where
  pools : ∀ pool ∈ w.pools, w.stack.Dated pool
  producers : ∀ a ∈ w.producers, a.pool < w.pools.length
  sockets : ∀ i s, w.resource i = some (.tcp3 s) → s.gen < w.stack.nextGen

/-- What a call makes of a node: ports in `T` are taken. -/
structure Turned (T : SockKind × Nat → Prop) (w w' : NetNode S) : Prop where
  holds : ∀ x kv, w'.holds port x = some kv → w.holds port x = some kv ∨ T kv
  dated : w'.Dated

variable {lib port} {T : SockKind × Nat → Prop} {w w' : NetNode S} {i : Nat}

theorem Dated.pool (dated : w.Dated) (k : Nat) : w.stack.Dated (w.pools.getD k []) := by
  rw [List.getD_eq_getElem?_getD]
  cases here : w.pools[k]? with
  | none => exact nofun
  | some pool => exact dated.pools pool (List.mem_of_getElem? here)

/-- A call that changes a resource and brings others. -/
theorem Turned.change (dated : w.Dated) (stack : w.stack.Took port T w'.stack) {r' : Option Resource}
    {new : List (Option Resource)} (table : w'.table = w.table.set i r' ++ new)
    (old : ∀ r, r' = some r → (∀ kv, r.boundTo = some kv → (w.resource i).bind Resource.boundTo = some kv ∨ T kv) ∧
      ∀ s, r = .tcp3 s → s.gen < w'.stack.nextGen)
    (added : ∀ r, some r ∈ new → (∀ kv, r.boundTo = some kv → T kv) ∧ ∀ s, r = .tcp3 s → s.gen < w'.stack.nextGen)
    (pools : ∀ pool ∈ w'.pools, w'.stack.Dated pool) (producers : ∀ a ∈ w'.producers, a.pool < w'.pools.length)
    (serving : ∀ p kv, w'.holds port (.producer p) = some kv → w.holds port (.producer p) = some kv ∨ T kv) :
    Turned port T w w' where
  holds x kv has := by
    cases x with
    | socket h => exact stack.port h kv has
    | resource j =>
      obtain ⟨r, here, bound⟩ := Option.bind_eq_some_iff.1 has
      rcases resource_change table here with ⟨rfl, changed⟩ | kept | ⟨-, come⟩
      · exact (old r changed).1 kv bound
      · exact .inl (Option.bind_eq_some_iff.2 ⟨r, kept, bound⟩)
      · exact .inr ((added r come).1 kv bound)
    | producer p => exact serving p kv has
  dated :=
    { pools, producers
      sockets := fun j s here => by
        rcases resource_change table here with ⟨rfl, changed⟩ | kept | ⟨-, come⟩
        · exact (old _ changed).2 s rfl
        · exact Nat.lt_of_lt_of_le (dated.sockets j s kept) stack.later
        · exact (added _ come).2 s rfl }

/-- A producer holds its port while its pool has a current socket. -/
theorem holds_producer {port : S → Option (SockKind × Nat)} {p : Nat} {a : AcceptProducer} (here : w.producers[p]? = some a)
    (serves : w.stack.serves (w.pools.getD a.pool []) = true) : w.holds port (.producer p) = some (.tcp, a.port) := by
  simp only [holds, here, Option.bind_some, serves, if_true]

theorem of_holds_producer {port : S → Option (SockKind × Nat)} {p : Nat} {kv : SockKind × Nat}
    (has : w.holds port (.producer p) = some kv) :
    ∃ a, w.producers[p]? = some a ∧ w.stack.serves (w.pools.getD a.pool []) = true ∧ kv = (.tcp, a.port) := by
  obtain ⟨a, here, serving⟩ := Option.bind_eq_some_iff.1 has
  split at serving
  · next serves => exact ⟨a, here, serves, (Option.some.inj serving).symm⟩
  · cases serving

theorem serving_kept (dated : w.Dated) (stack : w.stack.Took port T w'.stack) (pools : w'.pools = w.pools)
    (producers : w'.producers = w.producers) (p : Nat) (kv : SockKind × Nat)
    (has : w'.holds port (.producer p) = some kv) : w.holds port (.producer p) = some kv ∨ T kv := by
  obtain ⟨a, here, serves, rfl⟩ := of_holds_producer has
  rw [pools] at serves
  exact .inl (holds_producer (producers ▸ here) (stack.serves (dated.pool a.pool) serves))

/-- A call that leaves the shared pools as they are. -/
theorem Turned.update (dated : w.Dated) (stack : w.stack.Took port T w'.stack) {r' : Option Resource}
    {new : List (Option Resource)} (table : w'.table = w.table.set i r' ++ new) (pools : w'.pools = w.pools)
    (producers : w'.producers = w.producers)
    (old : ∀ r, r' = some r → (∀ kv, r.boundTo = some kv → (w.resource i).bind Resource.boundTo = some kv ∨ T kv) ∧
      ∀ s, r = .tcp3 s → s.gen < w'.stack.nextGen)
    (added : ∀ r, some r ∈ new → (∀ kv, r.boundTo = some kv → T kv) ∧ ∀ s, r = .tcp3 s → s.gen < w'.stack.nextGen) :
    Turned port T w w' :=
  .change dated stack table old added (fun pool member => stack.dated (dated.pools pool (pools ▸ member)))
    (fun a member => pools ▸ dated.producers a (producers ▸ member)) (serving_kept dated stack pools producers)

/-- A call that leaves the resources as they are. -/
theorem Turned.same (dated : w.Dated) (stack : w.stack.Took port T w'.stack) (table : w'.table = w.table)
    (pools : w'.pools = w.pools) (producers : w'.producers = w.producers) : Turned port T w w' := by
  have none' : w.table.set w.table.length none = w.table := List.set_eq_of_length_le le_rfl
  exact .update dated stack (by rw [none', List.append_nil, table]) pools producers (fun _ same => by cases same)
    fun _ member => by cases member

/-- What a call makes of a node, whose counter goes on as the ledger counts. -/
structure Stepped (port : S → Option (SockKind × Nat)) (l : Ledger PortHolder) (w : NetNode S)
    (src : Source SockKind PortHolder) (w' : NetNode S) : Prop where
  turned : Turned port (Takes ephemeral (w.holds port) l src) w w'
  turn : w'.nextPort = ephemeral.turn (l.counted src)

section Stepped

variable {l : Ledger PortHolder} {src : Source SockKind PortHolder} (dated : w.Dated)

include dated

theorem Stepped.idle (stack : w.stack.Took port (fun _ => False) w'.stack) (table : w'.table = w.table)
    (pools : w'.pools = w.pools) (producers : w'.producers = w.producers) (turn : w.nextPort = ephemeral.turn l.count)
    (nextPort : w'.nextPort = w.nextPort) : Stepped port l w .idle w' :=
  ⟨.same dated stack table pools producers, nextPort.trans turn⟩

theorem Stepped.refl (turn : w.nextPort = ephemeral.turn l.count) : Stepped port l w .idle w :=
  .idle dated (.refl _) rfl rfl rfl turn rfl

/-- A call on a 0.2 TCP socket. -/
theorem Stepped.tcp {s s' : TcpSock} (found : w.resource i = some (.tcp s))
    (allots : Allots port (w.holds port) l src w.stack w'.stack w'.nextPort)
    (table : w'.table = w.table.set i (some (.tcp s'))) (pools : w'.pools = w.pools) (producers : w'.producers = w.producers)
    (bound : s'.boundPort ≠ s.boundPort → s'.boundPort ≠ 0 → Takes ephemeral (w.holds port) l src (.tcp, s'.boundPort)) :
    Stepped port l w src w' := by
  refine ⟨.update dated allots.took (by rw [table, List.append_nil]) pools producers (fun r same => ?_)
    fun _ member => (by cases member), allots.turn⟩
  cases same
  refine ⟨fun kv has => ?_, fun _ same => by cases same⟩
  simp only [Resource.boundTo] at has
  split at has
  · cases has
  · next nonzero =>
      cases has
      by_cases kept : s'.boundPort = s.boundPort
      · refine .inl ?_
        rw [found]
        simp [Resource.boundTo, ← kept, nonzero]
      · exact .inr (bound kept nonzero)

/-- A call on a 0.3 TCP socket. -/
theorem Stepped.tcp3 {s s' : TcpSocket} (found : w.resource i = some (.tcp3 s))
    (allots : Allots port (w.holds port) l src w.stack w'.stack w'.nextPort)
    (table : w'.table = w.table.set i (some (.tcp3 s'))) (gen : s'.gen = s.gen)
    (bound : s'.boundPort ≠ s.boundPort → Takes ephemeral (w.holds port) l src (.tcp, s'.boundPort))
    (pools : ∀ pool ∈ w'.pools, w'.stack.Dated pool) (producers : ∀ a ∈ w'.producers, a.pool < w'.pools.length)
    (serving : ∀ p kv, w'.holds port (.producer p) = some kv →
      w.holds port (.producer p) = some kv ∨ Takes ephemeral (w.holds port) l src kv) : Stepped port l w src w' := by
  refine ⟨.change dated allots.took (by rw [table, List.append_nil]) (fun r same => ?_)
    (fun _ member => (by cases member)) pools producers serving, allots.turn⟩
  cases same
  refine ⟨fun kv has => ?_, fun s₀ same => ?_⟩
  · simp only [Resource.boundTo] at has
    split at has
    · cases has
    · next nonzero =>
        cases has
        by_cases kept : s'.boundPort = s.boundPort
        · refine .inl ?_
          rw [found]
          simp [Resource.boundTo, ← kept, nonzero]
        · exact .inr (bound kept)
  · cases same
    exact gen ▸ Nat.lt_of_lt_of_le (dated.sockets i s found) allots.took.later

/-- A call on a 0.3 TCP socket that leaves the shared pools as they are. -/
theorem Stepped.tcp3_kept {s s' : TcpSocket} (found : w.resource i = some (.tcp3 s))
    (allots : Allots port (w.holds port) l src w.stack w'.stack w'.nextPort)
    (table : w'.table = w.table.set i (some (.tcp3 s'))) (gen : s'.gen = s.gen) (pools : w'.pools = w.pools)
    (producers : w'.producers = w.producers)
    (bound : s'.boundPort ≠ s.boundPort → Takes ephemeral (w.holds port) l src (.tcp, s'.boundPort)) :
    Stepped port l w src w' :=
  .tcp3 dated found allots table gen bound (fun pool member => allots.took.dated (dated.pools pool (pools ▸ member)))
    (fun a member => pools ▸ dated.producers a (producers ▸ member)) (serving_kept dated allots.took pools producers)

/-- A call on a UDP socket. -/
theorem Stepped.udp {r : Resource} (allots : Allots port (w.holds port) l src w.stack w'.stack w'.nextPort)
    (table : w'.table = w.table.set i (some r)) (pools : w'.pools = w.pools) (producers : w'.producers = w.producers)
    (udp : r.boundTo = none ∧ ∀ s, r ≠ .tcp3 s) : Stepped port l w src w' := by
  refine ⟨.update dated allots.took (by rw [table, List.append_nil]) pools producers (fun r' same => ?_)
    fun _ member => (by cases member), allots.turn⟩
  cases same
  exact ⟨fun kv has => absurd (udp.1.symm.trans has) nofun, fun s same => absurd same (udp.2 s)⟩

/-- A resource is dropped. -/
theorem Stepped.dropped (stack : w.stack.Took port (fun _ => False) w'.stack) (table : w'.table = w.table.set i none)
    (pools : w'.pools = w.pools) (producers : w'.producers = w.producers) (turn : w.nextPort = ephemeral.turn l.count)
    (nextPort : w'.nextPort = w.nextPort) : Stepped port l w .idle w' :=
  ⟨.update dated stack (by rw [table, List.append_nil]) pools producers (fun _ same => by cases same)
    fun _ member => (by cases member), nextPort.trans turn⟩

/-- A new socket comes with its resource. -/
theorem Stepped.create {sock : S} (fresh : port sock = none) {resource : Claim → Resource}
    (unbound : ∀ c, (resource c).boundTo = none) (gen : ∀ c s, resource c = .tcp3 s → s.gen = c.2)
    (turn : w.nextPort = ephemeral.turn l.count) : Stepped port l w .idle (w.create sock resource) := by
  have none' : w.table.set w.table.length none = w.table := List.set_eq_of_length_le le_rfl
  refine ⟨.update dated (.addTracked fresh) (by rw [none']; rfl) rfl rfl (fun _ same => by cases same) fun r member => ?_, turn⟩
  have new : r = resource (w.stack.freeSlot, w.stack.nextGen) := Option.some.inj (List.mem_singleton.1 member)
  refine ⟨fun kv has => ?_, fun s same => ?_⟩
  · rw [new, unbound] at has
    cases has
  · rw [gen _ s (new ▸ same)]
    exact Nat.lt_succ_self _

omit dated in
theorem holds_tcp {s : TcpSock} (found : w.resource i = some (.tcp s)) (nonzero : s.boundPort ≠ 0) :
    w.holds port (.resource i) = some (.tcp, s.boundPort) := by
  simp [holds, found, Resource.boundTo, nonzero]

omit dated in
theorem holds_tcp3 {s : TcpSocket} (found : w.resource i = some (.tcp3 s)) (nonzero : s.boundPort ≠ 0) :
    w.holds port (.resource i) = some (.tcp, s.boundPort) := by
  simp [holds, found, Resource.boundTo, nonzero]

variable (turn : w.nextPort = ephemeral.turn l.count)

include turn

theorem Stepped.onTcp {f : TcpSock → NetNode S} {src : TcpSock → Source SockKind PortHolder}
    (kept : ∀ s, w.resource i = some (.tcp s) → Stepped port l w (src s) (f s)) :
    Stepped port l w (w.tcpSource i src) (w.onTcp i f) := by
  cases found : w.resource i with
  | none => simpa [NetNode.onTcp, tcpSource, found] using Stepped.refl dated turn
  | some r =>
    cases r with
    | tcp s => simpa [NetNode.onTcp, tcpSource, found] using kept s found
    | _ => simpa [NetNode.onTcp, tcpSource, found] using Stepped.refl dated turn

theorem Stepped.onTcp3 {f : TcpSocket → NetNode S} {src : TcpSocket → Source SockKind PortHolder}
    (kept : ∀ s, w.resource i = some (.tcp3 s) → Stepped port l w (src s) (f s)) :
    Stepped port l w (w.tcp3Source i src) (w.onTcp3 i f) := by
  cases found : w.resource i with
  | none => simpa [NetNode.onTcp3, tcp3Source, found] using Stepped.refl dated turn
  | some r =>
    cases r with
    | tcp3 s => simpa [NetNode.onTcp3, tcp3Source, found] using kept s found
    | _ => simpa [NetNode.onTcp3, tcp3Source, found] using Stepped.refl dated turn

theorem Stepped.onUdp {f : UdpSock → NetNode S} {src : UdpSock → Source SockKind PortHolder}
    (kept : ∀ s, Stepped port l w (src s) (f s)) :
    Stepped port l w (w.udpSource i src) (w.onUdp i f) := by
  cases found : w.resource i with
  | none => simpa [NetNode.onUdp, udpSource, found] using Stepped.refl dated turn
  | some r =>
    cases r with
    | udp s => simpa [NetNode.onUdp, udpSource, found] using kept s
    | _ => simpa [NetNode.onUdp, udpSource, found] using Stepped.refl dated turn

theorem Stepped.onUdp3 {f : UdpSock → NetNode S} {src : UdpSock → Source SockKind PortHolder}
    (kept : ∀ s, Stepped port l w (src s) (f s)) :
    Stepped port l w (w.udp3Source i src) (w.onUdp3 i f) := by
  cases found : w.resource i with
  | none => simpa [NetNode.onUdp3, udp3Source, found] using Stepped.refl dated turn
  | some r =>
    cases r with
    | udp3 s => simpa [NetNode.onUdp3, udp3Source, found] using kept s
    | _ => simpa [NetNode.onUdp3, udp3Source, found] using Stepped.refl dated turn

section Idle

variable {f : TcpSock → NetNode S} {g : TcpSocket → NetNode S} {u : UdpSock → NetNode S}

theorem Stepped.onTcp_idle (kept : ∀ s, w.resource i = some (.tcp s) → Stepped port l w .idle (f s)) :
    Stepped port l w .idle (w.onTcp i f) := by
  simp only [NetNode.onTcp]
  split
  · next s found => exact kept s found
  · exact .refl dated turn

theorem Stepped.onTcp3_idle (kept : ∀ s, w.resource i = some (.tcp3 s) → Stepped port l w .idle (g s)) :
    Stepped port l w .idle (w.onTcp3 i g) := by
  simp only [NetNode.onTcp3]
  split
  · next s found => exact kept s found
  · exact .refl dated turn

theorem Stepped.onUdp_idle (kept : ∀ s, Stepped port l w .idle (u s)) : Stepped port l w .idle (w.onUdp i u) := by
  simp only [NetNode.onUdp]
  split
  · next s _ => exact kept s
  · exact .refl dated turn

theorem Stepped.onUdp3_idle (kept : ∀ s, Stepped port l w .idle (u s)) : Stepped port l w .idle (w.onUdp3 i u) := by
  simp only [NetNode.onUdp3]
  split
  · next s _ => exact kept s
  · exact .refl dated turn

end Idle

end Stepped

end NetNode

section Kept

variable {lib : SocketLib S} {st : SocketStack S} {hostAccess : Bool} {nextPort : Nat} {remote : SocketAddress}

theorem TcpSock.startConnect_boundPort (s : TcpSock) :
    (s.startConnect lib st hostAccess nextPort remote).2.1.boundPort = s.boundPort := by
  simp only [startConnect]
  split
  · split <;> rfl
  · split <;> rfl

theorem TcpSock.startListen_boundPort (s : TcpSock) : (s.startListen lib st).2.1.boundPort = s.boundPort := by
  simp only [startListen]
  split <;> rfl

/-- An accept leaves the listener its port, and its connection has it too. -/
theorem TcpSock.accept_boundPort (lib : SocketLib S) (st : SocketStack S) (s : TcpSock) : (s.accept lib st).2.1.boundPort = s.boundPort ∧
    ∀ conn, (s.accept lib st).2.2 = .ok conn → conn.boundPort = s.boundPort := by
  have same : ∀ pool, (s.withPool pool).boundPort = s.boundPort := fun pool => by cases pool <;> rfl
  simp only [accept]
  split
  · exact ⟨same _, fun _ refused => by cases refused⟩
  · split
    · exact ⟨same _, fun _ ok => by cases ok; rfl⟩
    · exact ⟨rfl, fun _ refused => by cases refused⟩

theorem TcpSocket.connect_same (s : TcpSocket) : (s.connect lib st hostAccess nextPort remote).2.1.boundPort = s.boundPort ∧
    (s.connect lib st hostAccess nextPort remote).2.1.gen = s.gen := by
  simp only [TcpSocket.connect]
  split_ifs <;> exact ⟨rfl, rfl⟩

theorem TcpSocket.settle_same (s : TcpSocket) (failed : Bool) : (s.settle lib st failed).2.1.boundPort = s.boundPort ∧
    (s.settle lib st failed).2.1.gen = s.gen := by
  simp only [settle]
  split_ifs <;> exact ⟨rfl, rfl⟩

theorem TcpSocket.send_same (s : TcpSocket) : s.send.1.boundPort = s.boundPort ∧ s.send.1.gen = s.gen := by
  simp only [send]
  split <;> exact ⟨rfl, rfl⟩

theorem TcpSocket.receive_same (s : TcpSocket) : s.receive.1.boundPort = s.boundPort ∧ s.receive.1.gen = s.gen := by
  simp only [receive]
  split <;> exact ⟨rfl, rfl⟩

end Kept

/-- The reads and writes of a stream, and the turns of the hub, give no socket another port. -/
def SocketCall.Keeps (port : S → Option (SockKind × Nat)) : SocketCall S → Prop
  | .io _ f => ∀ s kv, port (f s) = some kv → port s = some kv
  | .poll f => ∀ h s kv, port (f h s) = some kv → port s = some kv
  | _ => True

namespace NetNode

variable {lib port} {w : NetNode S} {l : Ledger PortHolder}

/-- The ports that a listener's producer or a pool's poll brings. -/
theorem Stepped.produce (binds : lib.Binds port) (dated : w.Dated) (turn : w.nextPort = ephemeral.turn l.count) (p : Nat) :
    Stepped port l w (.shares .tcp (.producer p)) (w.step lib (.produce p)) := by
  simp only [NetNode.step]
  cases here : w.producers[p]? with
  | none => exact ⟨.same dated (.refl _) rfl rfl rfl, turn⟩
  | some a =>
    have own : w.stack.serves (w.pools.getD a.pool []) = true →
        Takes ephemeral (w.holds port) l (.shares .tcp (.producer p)) (.tcp, a.port) := fun serves =>
      ⟨rfl, holds_producer here serves⟩
    have polls := a.pollProduce_polls binds (dated.pool a.pool) own
    dsimp only
    generalize a.pollProduce lib (w.pools.getD a.pool []) w.stack = r at polls ⊢
    obtain ⟨st, pool, produced⟩ := r
    obtain ⟨took, given, accepted, idle⟩ := polls
    have none' : w.table.set w.table.length none = w.table := List.set_eq_of_length_le le_rfl
    refine ⟨.change dated took (by rw [none']) (fun _ same => by cases same) (fun r member => ?_) (fun pool' member => ?_)
      (fun b member => ?_) (fun q kv has => ?_), turn⟩
    · cases produced with
      | dropped => cases member
      | pending => cases member
      | accepted s =>
        cases List.mem_singleton.1 member
        obtain ⟨gen, bound, serves⟩ := accepted s rfl
        refine ⟨fun kv has => ?_, fun s' same => by cases same; exact gen⟩
        simp only [Resource.boundTo, bound] at has
        split at has
        · cases has
        · cases has
          exact own serves
    · rcases List.mem_or_eq_of_mem_set member with old | rfl
      · exact took.dated (dated.pools pool' old)
      · exact given
    · rw [List.length_set]
      exact dated.producers b member
    · obtain ⟨b, there, serves, rfl⟩ := of_holds_producer has
      refine .inl (holds_producer there ?_)
      dsimp only at serves
      by_cases shared : a.pool = b.pool
      · -- Had the polled pool no current socket, nothing would have happened.
        rw [← shared] at serves ⊢
        by_contra none''
        have same := idle (Bool.eq_false_iff.2 none'')
        simp only [Prod.mk.injEq] at same
        obtain ⟨rfl, rfl, -⟩ := same
        refine none'' (Eq.trans (congrArg _ ?_) serves)
        rw [List.getD_eq_getElem?_getD, List.getD_eq_getElem?_getD, List.getElem?_set_self']
        cases w.pools[a.pool]? <;> rfl
      · rw [List.getD_eq_getElem?_getD, List.getElem?_set_ne shared, ← List.getD_eq_getElem?_getD] at serves
        exact took.serves (dated.pool b.pool) serves

/-- A connection has its listener's port. -/
theorem Stepped.accept (binds : lib.Binds port) (dated : w.Dated) (turn : w.nextPort = ephemeral.turn l.count) (i : Nat) :
    Stepped port l w (w.source (.accept i)) (w.step lib (.accept i)) := by
  refine .onTcp dated turn fun s found => ?_
  have own : s.boundPort ≠ 0 → Takes ephemeral (w.holds port) l (.shares .tcp (.resource i)) (.tcp, s.boundPort) :=
    fun nonzero => ⟨rfl, holds_tcp found nonzero⟩
  have took : w.stack.Took port _ (s.accept lib w.stack).1 := (SocketStack.Took.frames binds).accept s (.relisten binds own) w.stack
  obtain ⟨same, accepted⟩ := TcpSock.accept_boundPort lib w.stack s
  split
  · next st s' conn answer =>
      rw [answer] at took same accepted
      refine ⟨.update dated took rfl rfl rfl (fun r same' => ?_) (fun r member => ?_), turn⟩
      · cases same'
        refine ⟨fun kv has => .inl ?_, fun _ other => by cases other⟩
        rw [found]
        simp only [Resource.boundTo] at has ⊢
        rwa [same] at has
      · cases List.mem_singleton.1 member
        refine ⟨fun kv has => ?_, fun _ other => by cases other⟩
        simp only [Resource.boundTo, accepted conn rfl] at has
        split at has
        · cases has
        · next nonzero =>
            cases has
            exact own nonzero
  · next st s' e answer =>
      rw [answer] at took same
      exact .tcp dated found ⟨took, turn⟩ rfl rfl rfl fun differs => absurd same differs

/-- A 0.3 listener's producer serves its port. -/
theorem Stepped.listen3 (binds : lib.Binds port) (dated : w.Dated) (turn : w.nextPort = ephemeral.turn l.count) (i : Nat) :
    Stepped port l w (w.source (.listen3 i)) (w.step lib (.listen3 i)) := by
  refine .onTcp3 dated turn fun s found => ?_
  have listens : Listens port (w.holds port) l _ w.stack s _ _ :=
    s.listen_listens binds turn (holds_tcp3 found) w.pools.length
  split
  · next st s' nextPort a pool answer =>
      rw [answer] at listens
      obtain ⟨allots, gen, bound, opened⟩ := listens
      obtain ⟨taken, last, given⟩ := opened a pool rfl
      refine .tcp3 dated found allots rfl gen bound (fun pool' member => ?_) (fun b member => ?_) fun p kv has => ?_
      · rcases List.mem_append.1 member with old | new
        · exact allots.took.dated (dated.pools pool' old)
        · exact List.mem_singleton.1 new ▸ given (dated.sockets i s found)
      · simp only [List.length_append, List.length_singleton]
        rcases List.mem_append.1 member with old | new
        · exact Nat.lt_succ_of_lt (dated.producers b old)
        · rw [List.mem_singleton.1 new, last]
          exact Nat.lt_succ_self _
      · obtain ⟨b, here, serves, rfl⟩ := of_holds_producer has
        dsimp only at here serves
        rw [List.getElem?_append] at here
        split at here
        · have within := dated.producers b (List.mem_of_getElem? here)
          rw [List.getD_eq_getElem?_getD, List.getElem?_append_left within, ← List.getD_eq_getElem?_getD] at serves
          exact .inl (holds_producer here (allots.took.serves (dated.pool b.pool) serves))
        · obtain rfl : b = a := List.mem_singleton.1 (List.mem_of_getElem? here)
          exact .inr taken
  · next st s' nextPort e answer =>
      rw [answer] at listens
      exact .tcp3_kept dated found listens.allots rfl listens.gen rfl rfl listens.boundTo

theorem Stepped.step (binds : lib.Binds port) (dated : w.Dated) (turn : w.nextPort = ephemeral.turn l.count)
    {call : SocketCall S} (keeps : call.Keeps port) : Stepped port l w (w.source call) (w.step lib call) := by
  cases call with
  | createTcp family =>
    let resource (c : Claim) : Resource := .tcp { handle := c.1, gen := c.2, family }
    refine show Stepped port l w .idle (w.create _ resource) from .create dated binds.tcp (fun _ => rfl) (fun c s same => ?_) turn
    cases same
  | createUdp family =>
    let resource (c : Claim) : Resource := .udp { handle := c.1, gen := c.2, family }
    refine show Stepped port l w .idle (w.create _ resource) from .create dated binds.udp (fun _ => rfl) (fun c s same => ?_) turn
    cases same
  | createTcp3 family =>
    let resource (c : Claim) : Resource := .tcp3 { handle := c.1, gen := c.2, family }
    refine show Stepped port l w .idle (w.create _ resource) from .create dated binds.tcp (fun _ => rfl) (fun c s same => ?_) turn
    cases same
    rfl
  | createUdp3 family =>
    let resource (c : Claim) : Resource := .udp3 { handle := c.1, gen := c.2, family }
    refine show Stepped port l w .idle (w.create _ resource) from .create dated binds.udp (fun _ => rfl) (fun c s same => ?_) turn
    cases same
  | startBind i addr =>
    refine .onTcp dated turn fun s found => ?_
    simp only [TcpSock.startBindSource]
    split
    · next unnamed => exact .tcp dated found ⟨.refl _, turn⟩ rfl rfl rfl fun _ named => absurd unnamed named
    · exact .tcp dated found ⟨.refl _, turn⟩ rfl rfl rfl fun _ _ => rfl
  | finishBind i =>
    refine .onTcp dated turn fun s found => ?_
    simp only [TcpSock.finishBindSource, TcpSock.finishBind]
    split
    · exact .tcp dated found ⟨.refl _, allocPort_snd turn⟩ rfl rfl rfl fun _ _ => congrArg (Prod.mk _) (allocPort_fst turn)
    · exact .tcp dated found ⟨.refl _, turn⟩ rfl rfl rfl fun differs => absurd rfl differs
  | startConnect i remote =>
    refine .onTcp dated turn fun s found => ?_
    exact .tcp dated found (s.startConnect_allots binds turn w.hostAccess remote) rfl rfl rfl
      fun differs => absurd s.startConnect_boundPort differs
  | finishConnect i failed connected =>
    refine .onTcp_idle dated turn fun s found => ?_
    simp only [TcpSock.finishConnect]
    split
    · exact .idle dated (.refl _) rfl rfl rfl turn rfl
    · exact .idle dated (.look s.gen s.handle) rfl rfl rfl turn rfl
  | startListen i =>
    refine .onTcp dated turn fun s found => ?_
    have own : s.boundPort ≠ 0 → Takes ephemeral (w.holds port) l (.shares .tcp (.resource i)) (.tcp, s.boundPort) :=
      fun nonzero => ⟨rfl, holds_tcp found nonzero⟩
    exact .tcp dated found ⟨s.startListen_took binds own, turn⟩ rfl rfl rfl fun differs => absurd s.startListen_boundPort differs
  | accept i => exact .accept binds dated turn i
  | subscribe i => exact .onTcp_idle dated turn fun s found => .idle dated (.refl _) rfl rfl rfl turn rfl
  | shutdown i =>
    exact .onTcp_idle dated turn fun s found => .idle dated (.close binds s.gen s.handle) rfl rfl rfl turn rfl
  | drop i =>
    exact .onTcp_idle dated turn fun s found => .dropped dated ((SocketStack.Took.frames binds).drop s _) rfl rfl rfl turn rfl
  | startBindUdp i addr =>
    exact .onUdp_idle dated turn fun s => .udp dated ⟨.refl _, turn⟩ rfl rfl rfl ⟨rfl, fun _ same => by cases same⟩
  | finishBindUdp i =>
    exact .onUdp dated turn fun s => .udp dated (s.finishBind_allots binds turn) rfl rfl rfl ⟨rfl, fun _ same => by cases same⟩
  | stream i remote =>
    exact .onUdp_idle dated turn fun s => .udp dated ⟨.refl _, turn⟩ rfl rfl rfl ⟨rfl, fun _ same => by cases same⟩
  | subscribeUdp i => exact .onUdp_idle dated turn fun s => .idle dated (.refl _) rfl rfl rfl turn rfl
  | dropUdp i =>
    exact .onUdp_idle dated turn fun s => .dropped dated (.beginClose s.gen s.handle .udp) rfl rfl rfl turn rfl
  | bind3 i addr =>
    refine .onTcp3 dated turn fun s found => ?_
    simp only [TcpSocket.bindSource, TcpSocket.bind]
    split
    · exact .tcp3_kept dated found ⟨.refl _, turn⟩ rfl rfl rfl rfl fun differs => absurd rfl differs
    · split
      · exact .tcp3_kept dated found ⟨.refl _, turn⟩ rfl rfl rfl rfl fun differs => absurd rfl differs
      · split
        · exact .tcp3_kept dated found ⟨.refl _, allocPort_snd turn⟩ rfl rfl rfl rfl
            fun _ => congrArg (Prod.mk _) (allocPort_fst turn)
        · exact .tcp3_kept dated found ⟨.refl _, turn⟩ rfl rfl rfl rfl fun _ => rfl
  | connect3 i remote =>
    refine .onTcp3 dated turn fun s found => ?_
    exact .tcp3_kept dated found (s.connect_allots binds turn (holds_tcp3 found) w.hostAccess remote) rfl s.connect_same.2 rfl rfl
      fun differs => absurd s.connect_same.1 differs
  | settle3 i failed =>
    refine .onTcp3_idle dated turn fun s found => ?_
    split
    · exact .tcp3_kept dated found ⟨(SocketStack.Took.frames binds).settle s _ failed, turn⟩ rfl (s.settle_same failed).2 rfl rfl
        fun differs => absurd (s.settle_same failed).1 differs
    · exact .refl dated turn
  | listen3 i => exact .listen3 binds dated turn i
  | send3 i =>
    refine .onTcp3_idle dated turn fun s found => ?_
    exact .tcp3_kept dated found ⟨.refl _, turn⟩ rfl s.send_same.2 rfl rfl fun differs => absurd s.send_same.1 differs
  | receive3 i =>
    refine .onTcp3_idle dated turn fun s found => ?_
    exact .tcp3_kept dated found ⟨.refl _, turn⟩ rfl s.receive_same.2 rfl rfl fun differs => absurd s.receive_same.1 differs
  | drop3 i =>
    exact .onTcp3_idle dated turn fun s found => .dropped dated ((SocketStack.Took.frames binds).drop3 s _ w.pools) rfl rfl rfl turn rfl
  | produce p => exact .produce binds dated turn p
  | bindUdp3 i addr =>
    exact .onUdp3 dated turn fun s => .udp dated (s.bind_allots binds turn addr) rfl rfl rfl ⟨rfl, fun _ same => by cases same⟩
  | connectUdp3 i remote =>
    exact .onUdp3 dated turn fun s =>
      .udp dated (s.connect_allots binds turn remote) rfl rfl rfl ⟨rfl, fun _ same => by cases same⟩
  | disconnectUdp3 i =>
    exact .onUdp3_idle dated turn fun s => .udp dated ⟨.refl _, turn⟩ rfl rfl rfl ⟨rfl, fun _ same => by cases same⟩
  | sendUdp3 i given =>
    exact .onUdp3 dated turn fun s =>
      .udp dated (s.send_allots binds turn w.hostAccess given) rfl rfl rfl ⟨rfl, fun _ same => by cases same⟩
  | receiveUdp3 i => exact .onUdp3_idle dated turn fun s => .idle dated (.refl _) rfl rfl rfl turn rfl
  | dropUdp3 i =>
    exact .onUdp3_idle dated turn fun s => .dropped dated (.beginClose s.gen s.handle .udp) rfl rfl rfl turn rfl
  | io k f =>
    simp only [NetNode.step]
    split
    · refine .idle dated ?_ rfl rfl rfl turn rfl
      dsimp only
      split
      · exact .access (fun s kv has => .inl (keeps s kv has)) _ _
      · exact .refl _
    · exact .refl dated turn
  | await k want =>
    simp only [NetNode.step]
    split
    · exact .idle dated (SocketStack.Took.frames binds).watch rfl rfl rfl turn rfl
    · exact .refl dated turn
  | ready k =>
    simp only [NetNode.step]
    split
    · exact .idle dated (SocketStack.Took.frames binds).watch rfl rfl rfl turn rfl
    · exact .refl dated turn
  | grant hostAccess => exact .idle dated (.refl _) rfl rfl rfl turn rfl
  | poll f => exact .idle dated (.poll keeps) rfl rfl rfl turn rfl
  | reap => exact .idle dated ((SocketStack.Took.frames binds).reapClosing _) rfl rfl rfl turn rfl

end NetNode

/-! ## The TCP side of a port forward -/

/-- The thread of an accepted host connection: it has its local port, then its socket. -/
inductive PumpThread where
  | waiting (lport : Nat)
  | running (c : Claim)
  | ended
  deriving DecidableEq, Repr

/-- The accept loop of a port forward over the stack of its bridge. -/
structure TcpForward (S : Type) where
  bridge : SocketStack S
  localPort : Nat := 49152
  pumps : List PumpThread := []

inductive TcpForwardEvent (S : Type) where
  /-- A host connection is accepted. -/
  | accepted
  /-- A thread adds its socket and connects it to the target. -/
  | start (k : Nat) (remote : SocketAddress)
  /-- A thread's exchange with its socket. -/
  | io (k : Nat) (f : S → S)
  /-- A thread's loop has ended. -/
  | leave (k : Nat) (finSent : Bool)
  /-- A UDP session binds a socket, or closes one. -/
  | session (lport : Nat)
  | expire (gen h : Nat)
  /-- The hub polls, or reaps. -/
  | poll (f : Nat → S → S)
  | reap

namespace TcpForward

/-- `localPort` is counted on before it is handed out. -/
def step (f : TcpForward S) : TcpForwardEvent S → TcpForward S
  | .accepted =>
    let localPort := (allocPort f.localPort).2
    { f with localPort, pumps := f.pumps ++ [.waiting localPort] }
  | .start k remote =>
    match f.pumps[k]? with
    | some (.waiting lport) =>
      let (st, h) := f.bridge.add lib.tcp
      let (st, gen) := st.track h
      let (st, ok) := st.attempt gen h fun s => lib.connect s remote lport
      if ok then { f with bridge := st, pumps := f.pumps.set k (.running (h, gen)) }
      else { f with bridge := st.beginClose gen h .tcp, pumps := f.pumps.set k .ended }
    | _ => f
  | .io k g =>
    match f.pumps[k]? with
    | some (.running c) => { f with bridge := f.bridge.access c.2 c.1 g }
    | _ => f
  | .leave k finSent =>
    match f.pumps[k]? with
    | some (.running c) =>
      let st := if finSent then f.bridge else f.bridge.access c.2 c.1 lib.close
      { f with bridge := st.beginClose c.2 c.1 .tcp, pumps := f.pumps.set k .ended }
    | _ => f
  | .session lport =>
    let (st, h) := f.bridge.add lib.udp
    let (st, gen) := st.track h
    let (st, ok) := st.attempt gen h fun s => lib.bind s lport
    { f with bridge := if ok then st else st.beginClose gen h .udp }
  | .expire gen h => { f with bridge := f.bridge.beginClose gen h .udp }
  | .poll g => { f with bridge := f.bridge.poll g }
  | .reap => { f with bridge := f.bridge.reapClosing lib }

/-- The exchanges of the threads, and the turns of the hub, give no socket another port. -/
def Keeps : TcpForwardEvent S → Prop
  | .io _ f => ∀ s kv, port (f s) = some kv → port s = some kv
  | .poll f => ∀ h s kv, port (f h s) = some kv → port s = some kv
  | _ => True

end TcpForward

/-- A thread that has not started, and a socket of the bridge. -/
inductive BridgeHolder where
  | thread (k : Nat)
  | socket (h : Nat)
  deriving DecidableEq, Repr

/-- The range of the automatic ports, from its second port on. -/
def bridgePorts : Rotation := { ephemeral with first := 1 }

namespace TcpForward

def holds (f : TcpForward S) : BridgeHolder → Option (SockKind × Nat)
  | .thread k =>
    match f.pumps[k]? with
    | some (.waiting lport) => some (.tcp, lport)
    | _ => none
  | .socket h => f.bridge.portAt port h

/-- Where an event has the port from that it takes. -/
def source (_ : TcpForward S) : TcpForwardEvent S → Source SockKind BridgeHolder
  | .accepted => .gives .tcp
  | .start k _ => .shares .tcp (.thread k)
  | .session lport => .names .udp lport
  | _ => .idle

variable {lib port} {f : TcpForward S} {l : Ledger BridgeHolder}

/-- The counter goes on as the ledger counts. -/
theorem step_turn (turn : f.localPort = ephemeral.turn l.count) (e : TcpForwardEvent S) :
    (f.step lib e).localPort = ephemeral.turn (l.counted (f.source e)) := by
  cases e with
  | accepted => exact allocPort_snd turn
  | start k remote =>
    simp only [step]
    split
    · split <;> exact turn
    · exact turn
  | io k g =>
    simp only [step]
    split <;> exact turn
  | leave k finSent =>
    simp only [step]
    split <;> exact turn
  | session lport => exact turn
  | expire gen h => exact turn
  | poll g => exact turn
  | reap => exact turn

/-- A thread holds its port while it waits. -/
theorem holds_thread {k : Nat} {kv : SockKind × Nat} :
    f.holds port (.thread k) = some kv ↔ ∃ lport, f.pumps[k]? = some (.waiting lport) ∧ kv = (.tcp, lport) := by
  simp only [holds]
  split
  · next lport here => simp [here, eq_comm]
  · next other => exact ⟨nofun, fun ⟨lport, here, _⟩ => absurd here (other lport)⟩

/-- A thread that waits after another has gone on was waiting. -/
theorem holds_thread_set {f' : TcpForward S} {k j : Nat} {t : PumpThread} (changed : f'.pumps = f.pumps.set k t)
    (started : ∀ lport, t ≠ .waiting lport) {kv : SockKind × Nat} (has : f'.holds port (.thread j) = some kv) :
    f.holds port (.thread j) = some kv := by
  obtain ⟨lport, here, rfl⟩ := holds_thread.1 has
  rw [changed, List.getElem?_set] at here
  split at here
  · split at here
    · exact absurd (Option.some.inj here) (started lport)
    · cases here
  · exact holds_thread.2 ⟨lport, here, rfl⟩

/-- An event takes what its source gives. -/
theorem step_took (binds : lib.Binds port) (turn : f.localPort = ephemeral.turn l.count) {e : TcpForwardEvent S}
    (keeps : Keeps port e) (x : BridgeHolder) (kv : SockKind × Nat) (has : (f.step lib e).holds port x = some kv) :
    f.holds port x = some kv ∨ Takes bridgePorts (f.holds port) l (f.source e) kv := by
  have both {T : SockKind × Nat → Prop} {f' : TcpForward S} (has : f'.holds port x = some kv)
      (stack : f.bridge.Took port T f'.bridge)
      (threads : ∀ j kv, f'.holds port (.thread j) = some kv → f.holds port (.thread j) = some kv ∨ T kv) :
      f.holds port x = some kv ∨ T kv := by
    cases x with
    | thread j => exact threads j kv has
    | socket h => exact stack.port h kv has
  cases e with
  | accepted =>
    refine both has (.refl _) fun j kv has => ?_
    obtain ⟨lport, here, rfl⟩ := holds_thread.1 has
    change (f.pumps ++ [_])[j]? = _ at here
    rw [List.getElem?_append] at here
    split at here
    · exact .inl (holds_thread.2 ⟨lport, here, rfl⟩)
    · cases List.mem_singleton.1 (List.mem_of_getElem? here)
      exact .inr (congrArg (Prod.mk _) (allocPort_snd turn))
  | start k remote =>
    simp only [step] at has
    split at has
    · next lport here =>
        have own : Takes bridgePorts (f.holds port) l (.shares .tcp (.thread k)) (.tcp, lport) :=
          ⟨rfl, holds_thread.2 ⟨lport, here, rfl⟩⟩
        split at has
        · exact both has ((SocketStack.Took.addTracked binds.tcp).trans (.connect binds own _ _))
            fun j kv has => .inl (holds_thread_set (t := .running _) rfl nofun has)
        · exact both has (((SocketStack.Took.addTracked binds.tcp).trans (.connect binds own _ _)).trans (.beginClose _ _ .tcp))
            fun j kv has => .inl (holds_thread_set (t := .ended) rfl nofun has)
    · exact .inl has
  | io k g =>
    simp only [step] at has
    split at has
    · exact both has (.access (fun s kv has => .inl (keeps s kv has)) _ _) fun _ _ has => .inl has
    · exact .inl has
  | leave k finSent =>
    simp only [step] at has
    split at has
    · next c here =>
        refine both has (.trans ?_ (.beginClose c.2 c.1 .tcp)) fun j kv has => .inl (holds_thread_set (t := .ended) rfl nofun has)
        split
        · exact .refl _
        · exact .close binds c.2 c.1
    · exact .inl has
  | session lport =>
    have named : Takes bridgePorts (f.holds port) l (.names .udp lport) (.udp, lport) := rfl
    simp only [step] at has
    split at has
    · exact both has ((SocketStack.Took.addTracked binds.udp).trans (.bind binds named _ _)) fun _ _ has => .inl has
    · exact both has (((SocketStack.Took.addTracked binds.udp).trans (.bind binds named _ _)).trans (.beginClose _ _ .udp))
        fun _ _ has => .inl has
  | expire gen h => exact both has (.beginClose gen h .udp) fun _ _ has => .inl has
  | poll g => exact both has (.poll keeps) fun _ _ has => .inl has
  | reap => exact both has ((SocketStack.Took.frames binds).reapClosing _) fun _ _ has => .inl has

end TcpForward

/-! ## The runs -/

/-- A node and a forward with the ledgers of their ports. -/
abbrev PortedNode (S : Type) := Ledgered (NetNode S) PortHolder

abbrev PortedForward (S : Type) := Ledgered (TcpForward S) BridgeHolder

def PortedNode.step : PortedNode S → SocketCall S → PortedNode S :=
  Ledgered.step (NetNode.step lib) (NetNode.holds port) NetNode.source

def PortedForward.step : PortedForward S → TcpForwardEvent S → PortedForward S :=
  Ledgered.step (TcpForward.step lib) (TcpForward.holds port) TcpForward.source

/-- A call that comes to no port which a live one of the protocol still has from an earlier
choice or by name. -/
def PortedNode.InTurn (x : PortedNode S) (call : SocketCall S) : Prop :=
  call.Keeps port ∧ Clear ephemeral (x.state.holds port) x.ledger (x.state.source call)

def PortedForward.InTurn (x : PortedForward S) (e : TcpForwardEvent S) : Prop :=
  TcpForward.Keeps port e ∧ Clear bridgePorts (x.state.holds port) x.ledger (x.state.source e)

/-- A chosen port is in the range, and whoever has it has it from the same choice. -/
def ChosenApart {H : Type} (holds : H → Option (SockKind × Nat)) (l : Ledger H) : Prop :=
  ∀ h n kind p, holds h = some (kind, p) → l.origin h = .given n →
    49152 ≤ p ∧ p ≤ 65535 ∧ ∀ h', holds h' = some (kind, p) → l.origin h' = .given n

theorem chosenApart_of_kept {H : Type} {r : Rotation} (lo : r.lo = 49152) (size : r.size = 16384)
    {holds : H → Option (SockKind × Nat)} {l : Ledger H} (kept : Kept r holds l) : ChosenApart holds l := by
  intro h n kind p has origin
  have value := kept.value h _ has
  rw [origin] at value
  have within := r.turn_mem n
  rw [show r.turn n = p from value, lo, size] at within
  exact ⟨within.1, by omega, fun h' has' => kept.apart h h' _ n has has' origin⟩

variable {lib port}

theorem NetNode.dated_boot (ip : Ipv4) (ip6 : Ipv6) : (NetNode.boot ip ip6 : NetNode S).Dated where
  pools _ member := by cases member
  producers _ member := by cases member
  sockets i s here := by simp [NetNode.resource, NetNode.boot] at here

theorem NetNode.holds_boot (ip : Ipv4) (ip6 : Ipv6) (h : PortHolder) : (NetNode.boot ip ip6 : NetNode S).holds port h = none := by
  cases h with
  | socket h => rfl
  | resource i => simp [NetNode.holds, NetNode.resource, NetNode.boot]
  | producer p => simp [NetNode.holds, NetNode.boot]

theorem PortedNode.kept (binds : lib.Binds port) (ip : Ipv4) (ip6 : Ipv6) {calls : List (SocketCall S)}
    (run : Along (PortedNode.step lib port) (PortedNode.InTurn port) { state := NetNode.boot ip ip6 } calls) :
    let x := calls.foldl (PortedNode.step lib port) { state := NetNode.boot ip ip6 }
    Kept ephemeral (x.state.holds port) x.ledger := by
  let I (x : PortedNode S) : Prop := x.state.Dated ∧ x.state.nextPort = ephemeral.turn x.ledger.count
  refine Ledgered.kept (I := I) _ _ _ (fun x call sound keeps => ?_) run ⟨NetNode.dated_boot ip ip6, rfl⟩
    (.start (NetNode.holds_boot ip ip6))
  have stepped := NetNode.Stepped.step binds sound.1 sound.2 keeps
  exact ⟨⟨stepped.turned.dated, stepped.turn⟩, stepped.turned.holds⟩

theorem PortedForward.kept (binds : lib.Binds port) (ip : Ipv4) (ip6 : Ipv6) {events : List (TcpForwardEvent S)}
    (run : Along (PortedForward.step lib port) (PortedForward.InTurn port) { state := { bridge := { ip, ip6 } } } events) :
    let x := events.foldl (PortedForward.step lib port) { state := { bridge := { ip, ip6 } } }
    Kept bridgePorts (x.state.holds port) x.ledger := by
  let I (x : PortedForward S) : Prop := x.state.localPort = ephemeral.turn x.ledger.count
  refine Ledgered.kept (I := I) _ _ _ (fun x e turn keeps => ?_) run rfl (.start fun h => ?_)
  · exact ⟨TcpForward.step_turn turn e, TcpForward.step_took binds turn keeps⟩
  · cases h <;> rfl

/-- A chosen port is in 49152 to 65535 and is shared by nobody but those who have it from the
same choice, in every state of a node and of a port forward, in every run in which no choice
comes to a port that is still held from an earlier choice or by name. -/
theorem ports_apart (binds : lib.Binds port) (ip : Ipv4) (ip6 : Ipv6) :
    (∀ calls : List (SocketCall S),
      Along (PortedNode.step lib port) (PortedNode.InTurn port) { state := NetNode.boot ip ip6 } calls →
        let x := calls.foldl (PortedNode.step lib port) { state := NetNode.boot ip ip6 }
        ChosenApart (x.state.holds port) x.ledger) ∧
    (∀ events : List (TcpForwardEvent S),
      Along (PortedForward.step lib port) (PortedForward.InTurn port) { state := { bridge := { ip, ip6 } } } events →
        let x := events.foldl (PortedForward.step lib port) { state := { bridge := { ip, ip6 } } }
        ChosenApart (x.state.holds port) x.ledger) :=
  ⟨fun _ run => chosenApart_of_kept rfl rfl (PortedNode.kept binds ip ip6 run),
    fun _ run => chosenApart_of_kept rfl rfl (PortedForward.kept binds ip ip6 run)⟩

end Stack

/-! ## Poles -/

section Poles

/-- A socket as far as its local port goes. -/
structure PortSock where
  state : TcpState := .closed
  here : Option (SockKind × Nat) := none
  deriving DecidableEq, Repr

def portLib : SocketLib PortSock where
  tcp := {}
  udp := {}
  state := PortSock.state
  listen s ep := if ep.port ≠ 0 ∧ s.state = .closed then some { state := .listen, here := some (.tcp, ep.port) } else none
  connect s _ lport := if s.state = .closed then some { state := .synSent, here := some (.tcp, lport) } else none
  bind s lport := some { s with here := some (.udp, lport) }
  close _ := {}
  abort _ := {}
  localEndpoint _ := none
  remoteEndpoint _ := none
  sendQueue _ := 0
  canRecv _ := false
  mayRecv s := s.state = .established
  canSend s := s.state = .established
  maySend s := s.state = .established

theorem portLib_binds : portLib.Binds PortSock.here where
  tcp := rfl
  udp := rfl
  listen s ep s' made := by
    simp only [portLib] at made
    split at made
    · next able =>
        cases made
        exact ⟨able.1, rfl⟩
    · cases made
  connect s remote lport s' made := by
    simp only [portLib] at made
    split at made
    · cases made
      rfl
    · cases made
  bind s lport s' made := by
    cases made
    rfl
  close s kv has := by cases has
  abort s kv has := by cases has

def far : SocketAddress := (.ipv4 { o0 := 10, o1 := 0, o2 := 0, o3 := 9 }, 80)

def bootPorts : NetNode PortSock := NetNode.boot NetNode.node Ipv6.localhost

/-- One connection is made, and asked for `n` times more; then another. -/
def rounds (n : Nat) : List (SocketCall PortSock) :=
  [.createTcp .v4, .startConnect 0 far] ++ List.replicate n (.startConnect 0 far) ++ [.createTcp .v4, .startConnect 1 far]

theorem rounds_keeps (n : Nat) : ∀ call ∈ rounds n, call.Keeps PortSock.here := by
  intro call member
  simp only [rounds, List.mem_append, List.mem_cons, List.mem_replicate, List.not_mem_nil, or_false] at member
  rcases member with ((rfl | rfl) | ⟨-, rfl⟩) | rfl | rfl <;> trivial

/-- The first connection is there, and the counter at `p`. -/
structure Busy (p : Nat) (w : NetNode PortSock) : Prop where
  nextPort : w.nextPort = p
  table : ∃ s : TcpSock, s.handle = 0 ∧ w.table = [some (.tcp s)]
  sock : w.stack.sock 0 = some { state := .synSent, here := some (.tcp, 49152) }
  size : w.stack.size = 1

/-- A connect on a connecting socket fails, and the counter goes on. -/
theorem Busy.retry {p : Nat} {w : NetNode PortSock} (busy : Busy p w) :
    Busy (allocPort p).2 (w.step portLib (.startConnect 0 far)) := by
  obtain ⟨rfl, ⟨s, handle, table⟩, sock, size⟩ := busy
  have found : w.resource 0 = some (.tcp s) := by simp [NetNode.resource, table]
  have refused : ((w.stack.sock s.handle).bind fun x => portLib.connect x far (allocPort w.nextPort).1) = none := by
    rw [handle, sock]
    rfl
  have stepped : w.step portLib (.startConnect 0 far) =
      { w.put 0 (.tcp s) with
        stack := (w.stack.attempt s.gen s.handle fun x => portLib.connect x far (allocPort w.nextPort).1).1
        nextPort := (allocPort w.nextPort).2 } := by
    have on : far.1.onFabric = true := by decide
    simp only [NetNode.step, NetNode.onTcp, found, TcpSock.startConnect, on, Bool.not_true, Bool.false_eq_true, if_false,
      SocketStack.attempt, refused, Option.isSome_none]
  rw [stepped]
  refine ⟨rfl, ⟨s, handle, by simp [NetNode.put, table]⟩, ?_, size⟩
  dsimp only [NetNode.put, SocketStack.attempt]
  rw [SocketStack.sock_access, handle, sock]
  rfl

theorem Busy.retries {w : NetNode PortSock} : ∀ {n k : Nat}, Busy (ephemeral.turn k) w →
    Busy (ephemeral.turn (k + n)) ((List.replicate n (.startConnect 0 far)).foldl (NetNode.step portLib) w)
  | 0, _, busy => busy
  | n + 1, k, busy => by
    have next := busy.retry
    rw [allocPort_snd rfl] at next
    rw [List.replicate_succ, List.foldl_cons, Nat.add_comm n 1, ← Nat.add_assoc]
    exact next.retries

/-- The second connection gets the port whose turn it is. -/
theorem Busy.meets {w : NetNode PortSock} (busy : Busy 49152 w) :
    let w' := (w.step portLib (.createTcp .v4)).step portLib (.startConnect 1 far)
    w'.holds PortSock.here (.socket 0) = some (.tcp, 49152) ∧ w'.holds PortSock.here (.socket 1) = some (.tcp, 49152) := by
  obtain ⟨nextPort, ⟨s, -, table⟩, sock, size⟩ := busy
  have taken : (w.stack.slots 0).isNone = false := by
    cases here : w.stack.slots 0 with
    | none => simp [SocketStack.sock, here] at sock
    | some slot => rfl
  have slot : w.stack.freeSlot = 1 := by simp [SocketStack.freeSlot, size, taken, List.range_succ]
  let next : TcpSock := { handle := 1, gen := w.stack.nextGen, family := .v4 }
  have found : (w.step portLib (.createTcp .v4)).resource 1 = some (.tcp next) := by
    simp [NetNode.step, NetNode.create, NetNode.resource, table, SocketStack.add, SocketStack.track, slot, next]
  have socks : ∀ h, (w.step portLib (.createTcp .v4)).stack.sock h = if h = 1 then some {} else w.stack.sock h := fun h =>
    (SocketStack.sock_add w.stack {} h).trans (by rw [slot])
  have on : far.1.onFabric = true := by decide
  have counter : (w.step portLib (.createTcp .v4)).nextPort = 49152 := nextPort
  generalize w.step portLib (.createTcp .v4) = w₁ at found socks counter ⊢
  have stack : (w₁.step portLib (.startConnect 1 far)).stack =
      (w₁.stack.attempt next.gen 1 fun x => portLib.connect x far 49152).1 := by
    simp only [NetNode.step, NetNode.onTcp, found, TcpSock.startConnect, on, Bool.not_true, Bool.false_eq_true, if_false, counter]
    split <;> rfl
  have ports : ∀ h, (w₁.step portLib (.startConnect 1 far)).holds PortSock.here (.socket h) =
      ((w₁.stack.attempt next.gen 1 fun x => portLib.connect x far 49152).1.sock h).bind PortSock.here := fun h =>
    congrArg (SocketStack.portAt PortSock.here · h) stack
  constructor
  · rw [ports, SocketStack.attempt, SocketStack.sock_access, if_neg (by decide), socks, if_neg (by decide), sock]
    rfl
  · rw [ports, SocketStack.attempt, SocketStack.sock_access, if_pos rfl, socks, if_pos rfl]
    rfl

theorem rounds_meet {n : Nat} (round : ephemeral.turn (1 + n) = 49152) :
    let w := (rounds n).foldl (NetNode.step portLib) bootPorts
    w.holds PortSock.here (.socket 0) = some (.tcp, 49152) ∧ w.holds PortSock.here (.socket 1) = some (.tcp, 49152) := by
  have first : Busy (ephemeral.turn 1) ([.createTcp .v4, .startConnect 0 far].foldl (NetNode.step portLib) bootPorts) :=
    ⟨rfl, ⟨_, rfl, rfl⟩, rfl, rfl⟩
  have busy : Busy (ephemeral.turn (1 + n)) _ := first.retries
  rw [rounds, List.foldl_append, List.foldl_append]
  exact (round ▸ busy).meets

/-- A connection that lives on while the counter goes round shares its port with the next one
that is made. -/
theorem ports_meet : portLib.Binds PortSock.here ∧ (∀ call ∈ rounds 16383, call.Keeps PortSock.here) ∧
    let w := (rounds 16383).foldl (NetNode.step portLib) bootPorts
    w.holds PortSock.here (.socket 0) = some (.tcp, 49152) ∧ w.holds PortSock.here (.socket 1) = some (.tcp, 49152) :=
  ⟨portLib_binds, rounds_keeps 16383, rounds_meet (by decide)⟩

/-- Two connections of a node, and two host connections of a forward. -/
def greetings : List (SocketCall PortSock) := [.createTcp .v4, .startConnect 0 far, .createTcp .v4, .startConnect 1 far]

def visits : List (TcpForwardEvent PortSock) := [.accepted, .accepted, .start 1 far, .start 0 far]

theorem greetings_inTurn :
    Along (PortedNode.step portLib PortSock.here) (PortedNode.InTurn PortSock.here) { state := bootPorts } greetings := by
  refine ⟨⟨trivial, trivial⟩, ⟨trivial, fun h v has => ?_⟩, ⟨trivial, trivial⟩, ⟨trivial, fun h v has => ?_⟩, trivial⟩
  · -- Nobody has a port yet.
    match h with
    | .socket 0 => cases has
    | .socket (h + 1) => cases has
    | .resource 0 => cases has
    | .resource (i + 1) => cases has
    | .producer p => cases has
  · -- The first connection has the first port.
    match h with
    | .socket 0 =>
      show 0 % 16384 ≠ 1 % 16384
      decide
    | .socket 1 => cases has
    | .socket (h + 2) => cases has
    | .resource 0 => cases has
    | .resource 1 => cases has
    | .resource (i + 2) => cases has
    | .producer p => cases has

def bootBridge : TcpForward PortSock := { bridge := { ip := NetNode.node, ip6 := Ipv6.localhost } }

theorem visits_inTurn :
    Along (PortedForward.step portLib PortSock.here) (PortedForward.InTurn PortSock.here) { state := bootBridge } visits := by
  refine ⟨⟨trivial, fun h v has => ?_⟩, ⟨trivial, fun h v has => ?_⟩, ⟨trivial, trivial⟩, ⟨trivial, trivial⟩, trivial⟩
  · match h with
    | .thread k => cases has
    | .socket h => cases has
  · match h with
    | .thread 0 =>
      show 0 % 16384 ≠ 1 % 16384
      decide
    | .thread (k + 1) => cases has
    | .socket h => cases has

theorem ports_apart_greeting :
    let x := greetings.foldl (PortedNode.step portLib PortSock.here) { state := bootPorts }
    let y := visits.foldl (PortedForward.step portLib PortSock.here) { state := bootBridge }
    (ChosenApart (x.state.holds PortSock.here) x.ledger ∧ x.state.holds PortSock.here (.socket 1) = some (.tcp, 49153)) ∧
      ChosenApart (y.state.holds PortSock.here) y.ledger ∧ y.state.holds PortSock.here (.socket 1) = some (.tcp, 49153) := by
  have both := ports_apart portLib_binds NetNode.node Ipv6.localhost
  exact ⟨⟨both.1 greetings greetings_inTurn, rfl⟩, both.2 visits visits_inTurn, rfl⟩

end Poles

end Wk.Fabric
