/-
# Wk.Fabric.Resources -- the guest's sockets

The guest's side of a `SocketStack`: the resource table with the TCP and UDP sockets of
`wasi:sockets` 0.2 and 0.3, the accept pools, the streams and pollables derived from
them.  `NetNode.step` is one call of the guest, or one turn of the hub.  Some calls check
`isCurrent` before they touch the socket, others take the bare handle.
-/
import Wk.Fabric.Sockets

namespace Wk.Fabric

open Wk.Library

set_option autoImplicit false

/-! ## The resources -/

/-- The errors of the socket interfaces. -/
inductive ErrorCode where
  | accessDenied | invalidState | invalidArgument | addressInUse | connectionRefused | wouldBlock
  | unknown
  deriving DecidableEq, Repr

/-- A 0.2 TCP socket. -/
structure TcpSock where
  handle : Nat
  gen : Nat
  family : IpFamily
  /-- Port set by `startBind`, used by `startListen`. -/
  boundPort : Nat := 0
  localAddress : Option SocketAddress := none
  remoteAddress : Option SocketAddress := none
  listening : Bool := false
  /-- Extra sockets listening on `boundPort` alongside `handle`. -/
  backlog : List Claim := []
  /-- Set when the socket connects off-fabric through a host gateway. -/
  host : Bool := false
  deriving DecidableEq, Repr

/-- A 0.3 TCP socket; once it listens, its sockets are in a shared pool. -/
structure TcpSocket where
  handle : Nat
  gen : Nat
  family : IpFamily
  bound : Bool := false
  boundPort : Nat := 0
  localAddress : Option SocketAddress := none
  remoteAddress : Option SocketAddress := none
  listening : Bool := false
  connecting : Bool := false
  connected : Bool := false
  /-- A failed connect leaves the socket dead. -/
  closed : Bool := false
  pool : Option Nat := none
  host : Bool := false
  sent : Bool := false
  received : Bool := false
  pooled : pool.isSome = true → listening = true := by simp
  deriving DecidableEq, Repr

/-- A UDP socket, of either generation. -/
structure UdpSock where
  handle : Nat
  gen : Nat
  family : IpFamily
  bound : Bool := false
  boundPort : Nat := 0
  localAddress : Option SocketAddress := none
  remoteAddress : Option SocketAddress := none
  deriving DecidableEq, Repr

/-- A resource of the guest: `tcp` and `udp` are the 0.2 sockets, `tcp3` and `udp3` the 0.3
ones. -/
inductive Resource where
  | tcp (s : TcpSock)
  | tcp3 (s : TcpSocket)
  | udp (s : UdpSock)
  | udp3 (s : UdpSock)
  deriving DecidableEq, Repr

/-- What a pollable is waiting for: a handshake to settle, or a TCP or UDP socket to be
readable or writable. -/
inductive Want where
  | event | read | write | receive | send
  deriving DecidableEq, Repr

/-- A pollable waits for the first of its sockets. -/
structure Pollable where
  want : Want
  pool : List Claim
  deriving DecidableEq, Repr

/-- The sending end of a 0.3 accept stream. -/
structure AcceptProducer where
  port : Nat
  family : IpFamily
  pool : Nat
  deriving DecidableEq, Repr

/-- How many sockets listen on a port at once. -/
def listenBacklog : Nat := 64

/-- Hand out the next ephemeral local port, wrapping back to 49152. -/
def allocPort (nextPort : Nat) : Nat × Nat :=
  (nextPort, if nextPort = 65535 then 49152 else nextPort + 1)

/-- A socket still in its handshake, or listening. -/
def TcpState.handshaking : TcpState → Bool
  | .listen | .synSent | .synReceived => true
  | _ => false

/-- What 0.2 accepts: an established connection. -/
def TcpState.peered : TcpState → Bool
  | .established => true
  | _ => false

/-- What 0.3 accepts: a socket that has left the listening handshake states. -/
def TcpState.left (state : TcpState) : Bool := !state.handshaking

namespace SocketStack

variable {S : Type} (lib : SocketLib S)

/-- The node's own address in the family of `remote`. -/
def localIpFor (st : SocketStack S) : IpAddress → IpAddress
  | .ipv4 _ => .ipv4 st.ip
  | .ipv6 _ => .ipv6 st.ip6

/-! ## Listening -/

/-- A fresh TCP socket that is told to listen. -/
def fresh (st : SocketStack S) (ep : IpListenEndpoint) : SocketStack S × Claim × Bool :=
  let (st, h) := st.add lib.tcp
  let (st, gen) := st.track h
  let (st, ok) := st.attempt gen h fun s => lib.listen s ep
  (st, (h, gen), ok)

/-- The extra listeners of a pool, round-robin over the endpoints. -/
def arm (eps : List IpListenEndpoint) : List Nat → SocketStack S → SocketStack S × List Claim
  | [], st => (st, [])
  | i :: more, st =>
    let (st, c, ok) := st.fresh lib (eps.getD (i % eps.length) ⟨none, 0⟩)
    if ok then
      let (st, backlog) := arm eps more st
      (st, c :: backlog)
    else arm eps more (st.beginClose c.2 c.1 .tcp)

/-- The endpoint a consumed listener was armed with. -/
def relistenEp (st : SocketStack S) (sock : Option S) (family : IpFamily) (port : Nat) :
    IpListenEndpoint :=
  match sock.bind lib.localEndpoint with
  | some ep => { addr := some ep.1, port }
  | none => (st.listenEndpoints family none port).headD ⟨none, 0⟩

/-- Refuse a peer of another family on one pool socket and arm the slot again. -/
def refuse (peered : TcpState → Bool) (family : IpFamily) (port : Nat) (c : Claim) (st : SocketStack S) :
    SocketStack S × Claim :=
  if !st.isCurrent c.1 c.2 then (st, c)
  else
    let sock := st.sock c.1
    let st := st.access c.2 c.1 id
    let matched := (sock.bind lib.remoteEndpoint).all fun ep => IpFamily.of ep.1 = family
    if !(sock.map lib.state).any peered || matched then (st, c)
    else
      let ep := st.relistenEp lib sock family port
      let st := (st.access c.2 c.1 lib.abort).beginClose c.2 c.1 .tcp
      let (st, fresh, ok) := st.fresh lib ep
      if ok then (st, fresh) else (st.beginClose fresh.2 fresh.1 .tcp, c)

/-- Refuse every peer of another family in a pool. -/
def refuseAll (peered : TcpState → Bool) (family : IpFamily) (port : Nat) :
    List Claim → SocketStack S → SocketStack S × List Claim
  | [], st => (st, [])
  | c :: pool, st =>
    let (st, c) := st.refuse lib peered family port c
    let (st, pool) := refuseAll peered family port pool st
    (st, c :: pool)

/-- The first pool socket with a peer. -/
def position (peered : TcpState → Bool) : List Claim → SocketStack S → SocketStack S × Option Nat
  | [], st => (st, none)
  | c :: pool, st =>
    if st.isCurrent c.1 c.2 then
      let found := (st.sock c.1).any fun s => peered (lib.state s)
      let st := st.access c.2 c.1 id
      if found then (st, some 0)
      else
        let (st, idx) := position peered pool st
        (st, idx.map (· + 1))
    else
      let (st, idx) := position peered pool st
      (st, idx.map (· + 1))

/-- Close the pool sockets that are still current, each after `f`. -/
def closePool (f : Option (S → S)) : List Claim → SocketStack S → SocketStack S
  | [], st => st
  | c :: pool, st =>
    closePool f pool <|
      if st.isCurrent c.1 c.2 then
        (match f with
          | some f => st.access c.2 c.1 f
          | none => st).beginClose c.2 c.1 .tcp
      else st

/-- Close a socket gracefully if it is current. -/
def closeCurrent (st : SocketStack S) (c : Claim) : SocketStack S :=
  if st.isCurrent c.1 c.2 then st.access c.2 c.1 lib.close else st

end SocketStack

/-! ## The 0.2 TCP socket -/

namespace TcpSock

variable {S : Type} (lib : SocketLib S) (s : TcpSock) (st : SocketStack S)

def claim : Claim := (s.handle, s.gen)

/-- The accept pool: slot 0 is the primary handle, the rest are the backlog. -/
def pool : List Claim := s.claim :: s.backlog

def withPool : List Claim → TcpSock
  | [] => s
  | c :: backlog => { s with handle := c.1, gen := c.2, backlog }

def startBind (addr : SocketAddress) : TcpSock :=
  { s with boundPort := addr.2, localAddress := some addr }

def finishBind (nextPort : Nat) : TcpSock × Nat :=
  if s.boundPort = 0 then
    let (port, nextPort) := allocPort nextPort
    ({ s with boundPort := port, localAddress := s.localAddress.map fun addr => (addr.1, port) },
      nextPort)
  else (s, nextPort)

def startConnect (hostAccess : Bool) (nextPort : Nat) (remote : SocketAddress) :
    SocketStack S × TcpSock × Nat × Except ErrorCode Unit :=
  if !remote.1.onFabric then
    -- Off-fabric: bridged to the host network, if the node has access to it.
    if hostAccess then (st, { s with host := true, remoteAddress := some remote }, nextPort, .ok ())
    else (st, s, nextPort, .error .accessDenied)
  else
    let (lport, nextPort) := allocPort nextPort
    let (st', ok) := st.attempt s.gen s.handle fun sock => lib.connect sock remote lport
    if ok then
      (st', { s with
          remoteAddress := some remote
          localAddress := some (st.localIpFor remote.1, lport) }, nextPort, .ok ())
    else (st', s, nextPort, .error .invalidState)

/-- The claims of the two streams, none of them over a host gateway.  `failed` and
`connected` are what the gateway's connection says. -/
def finishConnect (failed connected : Bool) : SocketStack S × Except ErrorCode (List Claim) :=
  if s.host then
    (st, if failed then .error .connectionRefused
      else if connected then .ok [] else .error .wouldBlock)
  else
    (st.access s.gen s.handle id,
      match (st.sock s.handle).map lib.state with
      | some .established => .ok [s.claim, s.claim]
      | some .synSent => .error .wouldBlock
      | some .synReceived => .error .wouldBlock
      | _ => .error .connectionRefused)

def startListen : SocketStack S × TcpSock × Except ErrorCode Unit :=
  let eps := st.listenEndpoints s.family (s.localAddress.map Prod.fst) s.boundPort
  let (st, ok) := st.attempt s.gen s.handle fun sock => lib.listen sock (eps.headD ⟨none, 0⟩)
  if ok then
    let (st, backlog) := st.arm lib eps (List.range' 1 (listenBacklog - 1))
    (st, { s with listening := true, backlog }, .ok ())
  else (st, s, .error .invalidState)

/-- Accept takes an established socket out of the pool and puts a fresh listener in its
slot. -/
def accept : SocketStack S × TcpSock × Except ErrorCode TcpSock :=
  let (st, pool) := st.refuseAll lib TcpState.peered s.family s.boundPort s.pool
  let (st, idx) := st.position lib TcpState.peered pool
  match idx with
  | none => (st, s.withPool pool, .error .wouldBlock)
  | some idx =>
    let conn := pool.getD idx s.claim
    let sock := st.sock conn.1
    let st := st.access conn.2 conn.1 id
    let (st, fresh, ok) := st.fresh lib (st.relistenEp lib sock s.family s.boundPort)
    if ok then
      (st, s.withPool (pool.set idx fresh), .ok
        { handle := conn.1, gen := conn.2, family := s.family, boundPort := s.boundPort
          localAddress := sock.bind lib.localEndpoint
          remoteAddress := sock.bind lib.remoteEndpoint })
    else (st, s, .error .unknown)

/-- No pollable of the stack for a host-gateway socket. -/
def subscribe : Option Pollable :=
  if s.host then none
  else some { want := .event, pool := if s.listening then s.pool else [s.claim] }

def shutdown : SocketStack S := st.access s.gen s.handle lib.close

def drop : SocketStack S :=
  ((st.closeCurrent lib s.claim).beginClose s.gen s.handle .tcp).closePool none s.backlog

end TcpSock

/-! ## The 0.3 TCP socket -/

/-- What a poll of an accept stream comes to. -/
inductive Produced where
  | dropped | pending
  | accepted (s : TcpSocket)

namespace TcpSocket

variable {S : Type} (lib : SocketLib S) (s : TcpSocket) (st : SocketStack S)

def claim : Claim := (s.handle, s.gen)

def bind (nextPort : Nat) (addr : SocketAddress) : TcpSocket × Nat × Except ErrorCode Unit :=
  if s.bound || s.listening || s.connecting || s.connected || s.closed then
    (s, nextPort, .error .invalidState)
  else if s.family ≠ IpFamily.of addr.1 then (s, nextPort, .error .invalidArgument)
  else
    let (port, nextPort) := if addr.2 = 0 then allocPort nextPort else (addr.2, nextPort)
    ({ s with bound := true, boundPort := port, localAddress := some (addr.1, port) }, nextPort, .ok ())

/-- The first half of a connect, up to where it awaits the handshake. -/
def connect (hostAccess : Bool) (nextPort : Nat) (remote : SocketAddress) :
    SocketStack S × TcpSocket × Nat × Except ErrorCode Unit :=
  if remote.2 = 0 || remote.1.unspecified then (st, s, nextPort, .error .invalidArgument)
  else if s.connected || s.connecting || s.listening || s.closed then
    (st, s, nextPort, .error .invalidState)
  else if s.family ≠ IpFamily.of remote.1 then (st, s, nextPort, .error .invalidArgument)
  else if !remote.1.onFabric then
    if hostAccess then
      (st, { s with host := true, remoteAddress := some remote, connecting := true }, nextPort, .ok ())
    else (st, s, nextPort, .error .accessDenied)
  else
    let boundPort := if s.bound then s.boundPort else 0
    let (lport, nextPort) := if boundPort ≠ 0 then (boundPort, nextPort) else allocPort nextPort
    let (st', ok) := st.attempt s.gen s.handle fun sock => lib.connect sock remote lport
    if ok then
      (st', { s with
          connecting := true
          remoteAddress := some remote
          localAddress := some (st.localIpFor remote.1, lport) }, nextPort, .ok ())
    else (st', s, nextPort, .error .invalidState)

/-- The second half, once the handshake has settled; `failed` is what the gateway's
connection says. -/
def settle (failed : Bool) : SocketStack S × TcpSocket × Except ErrorCode Unit :=
  if s.host then
    if failed then
      (st, { s with connecting := false, closed := true, host := false, remoteAddress := none },
        .error .connectionRefused)
    else (st, { s with connecting := false, connected := true }, .ok ())
  else
    let current := st.isCurrent s.handle s.gen
    let established := (st.sock s.handle).any fun sock => lib.state sock = .established
    let st := if current then st.access s.gen s.handle id else st
    if current && established then (st, { s with connecting := false, connected := true }, .ok ())
    else
      (st, { s with connecting := false, closed := true, remoteAddress := none },
        .error .connectionRefused)

/-- The listening socket, with the producer and the sockets of its pool, which becomes
pool `newPool`. -/
def listen (nextPort newPool : Nat) :
    SocketStack S × TcpSocket × Nat × Except ErrorCode (AcceptProducer × List Claim) :=
  if s.listening || s.connecting || s.connected || s.closed then
    (st, s, nextPort, .error .invalidState)
  else
    let (port, nextPort) :=
      if s.bound && s.boundPort ≠ 0 then (s.boundPort, nextPort) else allocPort nextPort
    let eps := st.listenEndpoints s.family (s.localAddress.map Prod.fst) port
    let (st, ok) := st.attempt s.gen s.handle fun sock => lib.listen sock (eps.headD ⟨none, 0⟩)
    if ok then
      let (st, backlog) := st.arm lib eps (List.range' 1 (listenBacklog - 1))
      let localIp := match s.family with
        | .v4 => IpAddress.ipv4 st.ip
        | .v6 => .ipv6 st.ip6
      (st, { s with
          listening := true
          bound := true
          boundPort := port
          localAddress := s.localAddress.or (some (localIp, port))
          pool := some newPool
          pooled := fun _ => rfl }, nextPort,
        .ok ({ port, family := s.family, pool := newPool }, s.claim :: backlog))
    else (st, s, nextPort, .error .invalidState)

/-- The claim of the sending half. -/
def send : TcpSocket × Except ErrorCode (Option Claim) :=
  if !s.connected || s.sent then (s, .error .invalidState)
  else ({ s with sent := true }, .ok (if s.host then none else some s.claim))

/-- The claim of the receiving half. -/
def receive : TcpSocket × Except ErrorCode (Option Claim) :=
  if !s.connected || s.received then (s, .error .invalidState)
  else ({ s with received := true }, .ok (if s.host then none else some s.claim))

/-- A listener closes its pool, another socket itself. -/
def drop (pools : List (List Claim)) : SocketStack S :=
  match s.pool with
  | some p => st.closePool (some lib.close) (pools.getD p [])
  | none => (st.closeCurrent lib s.claim).beginClose s.gen s.handle .tcp

end TcpSocket

namespace AcceptProducer

variable {S : Type} (lib : SocketLib S) (me : AcceptProducer)

/-- Take the first connection out of the pool and put a fresh listener in its slot. -/
def pollProduce (pool : List Claim) (st : SocketStack S) : SocketStack S × List Claim × Produced :=
  if pool.all fun c => !st.isCurrent c.1 c.2 then (st, pool, .dropped)
  else
    let (st, pool) := st.refuseAll lib TcpState.left me.family me.port pool
    let (st, idx) := st.position lib TcpState.left pool
    match idx with
    | none => (st, pool, .pending)
    | some idx =>
      let conn := pool.getD idx (0, 0)
      let sock := st.sock conn.1
      let st := st.access conn.2 conn.1 id
      let (st, fresh, ok) := st.fresh lib (st.relistenEp lib sock me.family me.port)
      let accepted : TcpSocket :=
        { handle := conn.1, gen := conn.2, family := me.family, bound := true, boundPort := me.port
          localAddress := sock.bind lib.localEndpoint
          remoteAddress := sock.bind lib.remoteEndpoint
          connected := true }
      if ok then (st, pool.set idx fresh, .accepted accepted)
      else (st.beginClose fresh.2 fresh.1 .tcp, pool.eraseIdx idx, .accepted accepted)

end AcceptProducer

/-! ## UDP sockets -/

namespace UdpSock

variable {S : Type} (lib : SocketLib S) (s : UdpSock) (st : SocketStack S)

def claim : Claim := (s.handle, s.gen)

def startBind (addr : SocketAddress) : UdpSock × Except ErrorCode Unit :=
  if s.bound then (s, .error .invalidState)
  else ({ s with boundPort := addr.2, localAddress := some addr }, .ok ())

/-- Bind the library's side to `port` (0 = ephemeral) and record the local address in
`family`. -/
def bindPort (nextPort : Nat) (family : IpFamily) (port : Nat) :
    SocketStack S × UdpSock × Nat × Except ErrorCode Unit :=
  let (port, nextPort) := if port = 0 then allocPort nextPort else (port, nextPort)
  let (st, ok) := st.attempt s.gen s.handle fun sock => lib.bind sock port
  if ok then
    let localIp := match family with
      | .v4 => IpAddress.ipv4 st.ip
      | .v6 => .ipv6 st.ip6
    (st, { s with bound := true, boundPort := port, localAddress := some (localIp, port) }, nextPort,
      .ok ())
  else (st, s, nextPort, .error .addressInUse)

/-- The bound family follows the address given to `startBind`. -/
def finishBind (nextPort : Nat) : SocketStack S × UdpSock × Nat × Except ErrorCode Unit :=
  if s.bound then (st, s, nextPort, .error .invalidState)
  else
    let family := match s.localAddress with
      | some (.ipv6 _, _) => IpFamily.v6
      | _ => .v4
    s.bindPort lib st nextPort family s.boundPort

/-- The claims of the two datagram streams. -/
def stream (remote : Option SocketAddress) : UdpSock × Except ErrorCode (List Claim) :=
  if s.bound then ({ s with remoteAddress := remote }, .ok [s.claim, s.claim])
  else (s, .error .invalidState)

def subscribe : Pollable := { want := .send, pool := [s.claim] }

def drop : SocketStack S := st.beginClose s.gen s.handle .udp

/-- The 0.3 bind. -/
def udpBind (nextPort port : Nat) : SocketStack S × UdpSock × Nat × Except ErrorCode Unit :=
  s.bindPort lib st nextPort s.family port

def bind (nextPort : Nat) (addr : SocketAddress) :
    SocketStack S × UdpSock × Nat × Except ErrorCode Unit :=
  if s.bound then (st, s, nextPort, .error .invalidState)
  else if s.family ≠ IpFamily.of addr.1 then (st, s, nextPort, .error .invalidArgument)
  else s.udpBind lib st nextPort addr.2

/-- An implicit bind, where the socket is not bound. -/
def ensureBound (nextPort : Nat) : SocketStack S × UdpSock × Nat × Except ErrorCode Unit :=
  if s.bound then (st, s, nextPort, .ok ()) else s.udpBind lib st nextPort 0

def connect (nextPort : Nat) (remote : SocketAddress) :
    SocketStack S × UdpSock × Nat × Except ErrorCode Unit :=
  if remote.2 = 0 || remote.1.unspecified then (st, s, nextPort, .error .invalidArgument)
  else if s.family ≠ IpFamily.of remote.1 then (st, s, nextPort, .error .invalidArgument)
  else
    match s.ensureBound lib st nextPort with
    | (st, s, nextPort, .ok ()) => (st, { s with remoteAddress := some remote }, nextPort, .ok ())
    | failed => failed

def disconnect : UdpSock × Except ErrorCode Unit :=
  if s.remoteAddress.isNone then (s, .error .invalidState)
  else ({ s with remoteAddress := none }, .ok ())

/-- Where a datagram goes: a connected socket only sends to its peer. -/
def destination (given : Option SocketAddress) : Except ErrorCode SocketAddress :=
  match s.remoteAddress, given with
  | some peer, some given => if given = peer then .ok peer else .error .invalidArgument
  | some peer, none => .ok peer
  | none, some given => .ok given
  | none, none => .error .invalidArgument

/-- The first half of a send, up to where it awaits buffer space: the claim it goes on
with, none for a datagram that leaves over the host gateway. -/
def send (hostAccess : Bool) (nextPort : Nat) (given : Option SocketAddress) :
    SocketStack S × UdpSock × Nat × Except ErrorCode (Option Claim) :=
  match s.ensureBound lib st nextPort with
  | (st, s, nextPort, .error e) => (st, s, nextPort, .error e)
  | (st, s, nextPort, .ok ()) =>
    (st, s, nextPort, do
      let dest ← s.destination given
      if dest.2 = 0 || dest.1.unspecified then .error .invalidArgument
      else if dest.1.onFabric || dest.1.multicast then .ok (some s.claim)
      else if hostAccess then .ok none
      else .error .accessDenied)

def receive : Except ErrorCode Claim := if s.bound then .ok s.claim else .error .invalidState

end UdpSock

/-! ## The node -/

/-- Whether what is waited for is there. -/
def Want.ready {S : Type} (lib : SocketLib S) (want : Want) (s : S) : Bool :=
  match want with
  | .event => (lib.state s).left
  | .read => lib.canRecv s || !lib.mayRecv s
  | .write => lib.canSend s || !lib.maySend s
  | .receive => lib.canRecv s
  | .send => lib.canSend s

/-- A pollable is polled: it looks at its sockets up to the first that is ready or gone. -/
def SocketStack.watch {S : Type} (lib : SocketLib S) (want : Want) :
    List Claim → SocketStack S → SocketStack S
  | [], st => st
  | c :: pool, st =>
    if st.isCurrent c.1 c.2 then
      let ready := (st.sock c.1).any (want.ready lib)
      let st := st.access c.2 c.1 id
      if ready then st else st.watch lib want pool
    else st

/-- A node's stack with the resources of its guest.  A dropped resource leaves its place in
the table empty; a pool is shared by its listener and the producer of its accept stream. -/
structure NetNode (S : Type) where
  stack : SocketStack S
  /-- Whether the node may reach the real host network. -/
  hostAccess : Bool := false
  nextPort : Nat := 49152
  table : List (Option Resource) := []
  pools : List (List Claim) := []
  producers : List AcceptProducer := []
  /-- The sockets that streams, and sends and receives under way, go on with. -/
  streams : List Claim := []
  pollables : List Pollable := []

/-- One call of the guest, on the resource at a place of the table, or one turn of the
hub.  `io` is any read or write of a stream, and the close a dropped 0.3 send stream
makes. -/
inductive SocketCall (S : Type) where
  | createTcp (family : IpFamily)
  | startBind (i : Nat) (addr : SocketAddress)
  | finishBind (i : Nat)
  | startConnect (i : Nat) (remote : SocketAddress)
  | finishConnect (i : Nat) (failed connected : Bool)
  | startListen (i : Nat)
  | accept (i : Nat)
  | subscribe (i : Nat)
  | shutdown (i : Nat)
  | drop (i : Nat)
  | createUdp (family : IpFamily)
  | startBindUdp (i : Nat) (addr : SocketAddress)
  | finishBindUdp (i : Nat)
  | stream (i : Nat) (remote : Option SocketAddress)
  | subscribeUdp (i : Nat)
  | dropUdp (i : Nat)
  | createTcp3 (family : IpFamily)
  | bind3 (i : Nat) (addr : SocketAddress)
  | connect3 (i : Nat) (remote : SocketAddress)
  | settle3 (i : Nat) (failed : Bool)
  | listen3 (i : Nat)
  | send3 (i : Nat)
  | receive3 (i : Nat)
  | drop3 (i : Nat)
  | produce (p : Nat)
  | createUdp3 (family : IpFamily)
  | bindUdp3 (i : Nat) (addr : SocketAddress)
  | connectUdp3 (i : Nat) (remote : SocketAddress)
  | disconnectUdp3 (i : Nat)
  | sendUdp3 (i : Nat) (given : Option SocketAddress)
  | receiveUdp3 (i : Nat)
  | dropUdp3 (i : Nat)
  | io (k : Nat) (f : S → S)
  | await (k : Nat) (want : Want)
  | ready (k : Nat)
  | grant (hostAccess : Bool)
  | poll (f : Nat → S → S)
  | reap

/-- Whether the hub reaps. -/
def SocketCall.reaps {S : Type} : SocketCall S → Bool
  | .reap => true
  | _ => false

theorem SocketCall.reaps_iff {S : Type} {call : SocketCall S} : call.reaps = true ↔ call = .reap := by
  cases call <;> simp [reaps]

/-- The accepted socket is a new resource. -/
def Produced.added : Produced → List (Option Resource)
  | .accepted s => [some (.tcp3 s)]
  | _ => []

namespace NetNode

variable {S : Type} (lib : SocketLib S) (w : NetNode S)

def resource (i : Nat) : Option Resource := (w.table[i]?).join

def put (i : Nat) (r : Resource) : NetNode S := { w with table := w.table.set i (some r) }

def delete (i : Nat) : NetNode S := { w with table := w.table.set i none }

/-- A call on a 0.2 TCP socket; another resource traps. -/
def onTcp (i : Nat) (f : TcpSock → NetNode S) : NetNode S :=
  match w.resource i with
  | some (.tcp s) => f s
  | _ => w

def onTcp3 (i : Nat) (f : TcpSocket → NetNode S) : NetNode S :=
  match w.resource i with
  | some (.tcp3 s) => f s
  | _ => w

def onUdp (i : Nat) (f : UdpSock → NetNode S) : NetNode S :=
  match w.resource i with
  | some (.udp s) => f s
  | _ => w

def onUdp3 (i : Nat) (f : UdpSock → NetNode S) : NetNode S :=
  match w.resource i with
  | some (.udp3 s) => f s
  | _ => w

/-- A new socket and the resource that owns it. -/
def create (sock : S) (resource : Claim → Resource) : NetNode S :=
  let (st, h) := w.stack.add sock
  let (st, gen) := st.track h
  { w with stack := st, table := w.table ++ [some (resource (h, gen))] }

/-- The streams that a call gives out, if it succeeds. -/
def streamed {ε : Type} (given : Except ε (List Claim)) : NetNode S :=
  { w with streams := w.streams ++ given.toOption.getD [] }

def step : SocketCall S → NetNode S
  | .createTcp family => w.create lib.tcp fun c => .tcp { handle := c.1, gen := c.2, family }
  | .startBind i addr => w.onTcp i fun s => w.put i (.tcp (s.startBind addr))
  | .finishBind i => w.onTcp i fun s =>
    let (s, nextPort) := s.finishBind w.nextPort
    { w.put i (.tcp s) with nextPort }
  | .startConnect i remote => w.onTcp i fun s =>
    let (stack, s, nextPort, _) := s.startConnect lib w.stack w.hostAccess w.nextPort remote
    { w.put i (.tcp s) with stack, nextPort }
  | .finishConnect i failed connected => w.onTcp i fun s =>
    let (stack, streams) := s.finishConnect lib w.stack failed connected
    { w with stack }.streamed streams
  | .startListen i => w.onTcp i fun s =>
    let (stack, s, _) := s.startListen lib w.stack
    { w.put i (.tcp s) with stack }
  | .accept i => w.onTcp i fun s =>
    match s.accept lib w.stack with
    | (stack, s, .ok conn) =>
      { w.put i (.tcp s) with
        stack
        table := w.table.set i (some (.tcp s)) ++ [some (.tcp conn)]
        streams := w.streams ++ [conn.claim, conn.claim] }
    | (stack, s, .error _) => { w.put i (.tcp s) with stack }
  | .subscribe i => w.onTcp i fun s => { w with pollables := w.pollables ++ s.subscribe.toList }
  | .shutdown i => w.onTcp i fun s => { w with stack := s.shutdown lib w.stack }
  | .drop i => w.onTcp i fun s => { w.delete i with stack := s.drop lib w.stack }
  | .createUdp family => w.create lib.udp fun c => .udp { handle := c.1, gen := c.2, family }
  | .startBindUdp i addr => w.onUdp i fun s => w.put i (.udp (s.startBind addr).1)
  | .finishBindUdp i => w.onUdp i fun s =>
    let (stack, s, nextPort, _) := s.finishBind lib w.stack w.nextPort
    { w.put i (.udp s) with stack, nextPort }
  | .stream i remote => w.onUdp i fun s =>
    let (s, streams) := s.stream remote
    (w.put i (.udp s)).streamed streams
  | .subscribeUdp i => w.onUdp i fun s => { w with pollables := w.pollables ++ [s.subscribe] }
  | .dropUdp i => w.onUdp i fun s => { w.delete i with stack := s.drop w.stack }
  | .createTcp3 family => w.create lib.tcp fun c => .tcp3 { handle := c.1, gen := c.2, family }
  | .bind3 i addr => w.onTcp3 i fun s =>
    let (s, nextPort, _) := s.bind w.nextPort addr
    { w.put i (.tcp3 s) with nextPort }
  | .connect3 i remote => w.onTcp3 i fun s =>
    let (stack, s, nextPort, _) := s.connect lib w.stack w.hostAccess w.nextPort remote
    { w.put i (.tcp3 s) with stack, nextPort }
  | .settle3 i failed => w.onTcp3 i fun s =>
    if s.connecting then
      let (stack, s, _) := s.settle lib w.stack failed
      { w.put i (.tcp3 s) with stack }
    else w
  | .listen3 i => w.onTcp3 i fun s =>
    match s.listen lib w.stack w.nextPort w.pools.length with
    | (stack, s, nextPort, .ok (producer, pool)) =>
      { w.put i (.tcp3 s) with
        stack, nextPort
        pools := w.pools ++ [pool]
        producers := w.producers ++ [producer] }
    | (stack, s, nextPort, .error _) => { w.put i (.tcp3 s) with stack, nextPort }
  | .send3 i => w.onTcp3 i fun s =>
    let (s, stream) := s.send
    (w.put i (.tcp3 s)).streamed (stream.map Option.toList)
  | .receive3 i => w.onTcp3 i fun s =>
    let (s, stream) := s.receive
    (w.put i (.tcp3 s)).streamed (stream.map Option.toList)
  | .drop3 i => w.onTcp3 i fun s => { w.delete i with stack := s.drop lib w.stack w.pools }
  | .produce p =>
    match w.producers[p]? with
    | none => w
    | some producer =>
      let (stack, pool, produced) :=
        producer.pollProduce lib (w.pools.getD producer.pool []) w.stack
      { w with
        stack
        pools := w.pools.set producer.pool pool
        table := w.table ++ produced.added }
  | .createUdp3 family => w.create lib.udp fun c => .udp3 { handle := c.1, gen := c.2, family }
  | .bindUdp3 i addr => w.onUdp3 i fun s =>
    let (stack, s, nextPort, _) := s.bind lib w.stack w.nextPort addr
    { w.put i (.udp3 s) with stack, nextPort }
  | .connectUdp3 i remote => w.onUdp3 i fun s =>
    let (stack, s, nextPort, _) := s.connect lib w.stack w.nextPort remote
    { w.put i (.udp3 s) with stack, nextPort }
  | .disconnectUdp3 i => w.onUdp3 i fun s => w.put i (.udp3 s.disconnect.1)
  | .sendUdp3 i given => w.onUdp3 i fun s =>
    let (stack, s, nextPort, stream) := s.send lib w.stack w.hostAccess w.nextPort given
    ({ w.put i (.udp3 s) with stack, nextPort }).streamed (stream.map Option.toList)
  | .receiveUdp3 i => w.onUdp3 i fun s => w.streamed (s.receive.map fun c => [c])
  | .dropUdp3 i => w.onUdp3 i fun s => { w.delete i with stack := s.drop w.stack }
  | .io k f =>
    match w.streams[k]? with
    | some c => { w with stack := if w.stack.isCurrent c.1 c.2 then w.stack.access c.2 c.1 f else w.stack }
    | none => w
  | .await k want =>
    match w.streams[k]? with
    | some c => { w with stack := w.stack.watch lib want [c] }
    | none => w
  | .ready k =>
    match w.pollables[k]? with
    | some pollable => { w with stack := w.stack.watch lib pollable.want pollable.pool }
    | none => w
  | .grant hostAccess => { w with hostAccess }
  | .poll f => { w with stack := w.stack.poll f }
  | .reap => { w with stack := w.stack.reapClosing lib }

end NetNode

end Wk.Fabric
