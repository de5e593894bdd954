/-
# Wk.Fabric.Ports -- where a socket's local port is from

A node chooses local ports with a counter that goes round 49152 to 65535, and does not look at
who has the port whose turn it is.  Every operation on the guest's sockets takes one port at
most: the next one in turn, one that is named, or the one that its listener has.

* `SocketStack.Took`: what an operation on the stack takes.
* `Allots`: it takes what its source gives, and the counter goes on as the ledger counts.
* `Listens`, `Polls`: the 0.3 listener and its accept stream.
-/
import Wk.Fabric.Listeners
import Wk.Fabric.Frames
import Wk.Library.Leases

namespace Wk.Fabric

open Wk.Library

set_option autoImplicit false

/-! ## The ports of a stack -/

/-- The range of the automatic ports. -/
def ephemeral : Rotation := { lo := 49152, size := 16384 }

theorem allocPort_turn (n : Nat) : allocPort (ephemeral.turn n) = (ephemeral.turn n, ephemeral.turn (n + 1)) :=
  congrArg (Prod.mk _) (ephemeral.next_turn n)

theorem allocPort_fst {nextPort n : Nat} (turn : nextPort = ephemeral.turn n) : (allocPort nextPort).1 = ephemeral.turn n :=
  turn

theorem allocPort_snd {nextPort n : Nat} (turn : nextPort = ephemeral.turn n) :
    (allocPort nextPort).2 = ephemeral.turn (n + 1) := by
  rw [turn, allocPort_turn]

section Stack

variable {S : Type} (lib : SocketLib S) (port : S → Option (SockKind × Nat))

/-- What the library documents of the local port of a socket, TCP or UDP: a fresh socket has
none, it has the port it is told to listen on, to connect from or to bind to, and a close or an
abort gives it no other. -/
structure SocketLib.Binds : Prop where
  tcp : port lib.tcp = none
  udp : port lib.udp = none
  listen : ∀ s ep s', lib.listen s ep = some s' → ep.port ≠ 0 ∧ port s' = some (.tcp, ep.port)
  connect : ∀ s remote lport s', lib.connect s remote lport = some s' → port s' = some (.tcp, lport)
  bind : ∀ s lport s', lib.bind s lport = some s' → port s' = some (.udp, lport)
  close : ∀ s kv, port (lib.close s) = some kv → port s = some kv
  abort : ∀ s kv, port (lib.abort s) = some kv → port s = some kv

/-- The local port of the socket in a slot. -/
def SocketStack.portAt (st : SocketStack S) (h : Nat) : Option (SockKind × Nat) := (st.sock h).bind port

/-- What operations make of a stack whose sockets take ports in `T` only; no claim that was given
out comes to life again. -/
structure SocketStack.Took (T : SockKind × Nat → Prop) (st st' : SocketStack S) : Prop where
  port : ∀ h kv, st'.portAt port h = some kv → st.portAt port h = some kv ∨ T kv
  current : ∀ c : Claim, c.2 < st.nextGen → st'.isCurrent c.1 c.2 = true → st.isCurrent c.1 c.2 = true
  later : st.nextGen ≤ st'.nextGen

namespace SocketStack

variable {lib port} {T : SockKind × Nat → Prop} {st st' st'' : SocketStack S}

namespace Took

theorem refl (st : SocketStack S) : st.Took port T st := ⟨fun _ _ => .inl, fun _ _ => id, le_rfl⟩

theorem trans (first : st.Took port T st') (second : st'.Took port T st'') : st.Took port T st'' where
  port h kv has := (second.port h kv has).elim (first.port h kv) .inr
  current c dated now := first.current c dated (second.current c (Nat.lt_of_lt_of_le dated first.later) now)
  later := first.later.trans second.later

theorem dated {pool : List Claim} (took : st.Took port T st') (dated : st.Dated pool) : st'.Dated pool :=
  fun c member => Nat.lt_of_lt_of_le (dated c member) took.later

/-- An access that leaves the socket its port, or gives it one in `T`. -/
theorem access {f : S → S} (gives : ∀ s kv, port (f s) = some kv → port s = some kv ∨ T kv) (gen h : Nat) :
    st.Took port T (st.access gen h f) where
  port h' kv has := by
    simp only [portAt, sock_access] at has ⊢
    split at has
    · cases there : st.sock h' with
      | none => simp [there] at has
      | some s =>
        rw [there] at has
        exact gives s kv has
    · exact .inl has
  current _ _ now := now
  later := le_rfl

theorem look (gen h : Nat) : st.Took port T (st.access gen h id) :=
  access (fun _ _ has => .inl has) gen h

theorem attempt {f : S → Option S} (gives : ∀ s s' kv, f s = some s' → port s' = some kv → T kv) (gen h : Nat) :
    st.Took port T (st.attempt gen h f).1 := by
  have made : ∀ s kv, port ((f s).getD s) = some kv → port s = some kv ∨ T kv := by
    intro s kv has
    cases made : f s with
    | none => exact .inl (by simpa [made] using has)
    | some s' => exact .inr (gives s s' kv made (by simpa [made] using has))
  exact access made gen h

theorem addTracked {sock : S} (fresh : port sock = none) :
    st.Took port T ((st.add sock).1.track (st.add sock).2).1 where
  port h kv has := by
    have there : (((st.add sock).1.track (st.add sock).2).1).portAt port h = ((st.add sock).1.sock h).bind port := rfl
    rw [there, sock_add] at has
    split at has
    · simp [fresh] at has
    · exact .inl has
  current c dated now := by
    simp only [isCurrent, track, Function.update_apply] at now ⊢
    split at now
    · have same : st.nextGen = c.2 := by simpa [add] using now
      exact absurd dated (same ▸ Nat.lt_irrefl _)
    · exact now
  later := Nat.le_succ _

theorem beginClose (gen h : Nat) (kind : SockKind) : st.Took port T (st.beginClose gen h kind) where
  port h' kv has := .inl (by simpa [portAt] using has)
  current c _ now := by
    simp only [SocketStack.beginClose] at now
    split at now
    · exact now
    · simp only [isCurrent, Function.update_apply] at now ⊢
      split at now
      · simp at now
      · exact now
  later := (nextGen_beginClose ..).ge

theorem poll {f : Nat → S → S} (quiet : ∀ h s kv, port (f h s) = some kv → port s = some kv) :
    st.Took port T (st.poll f) where
  port h kv has := by
    have there : (st.poll f).sock h = (st.sock h).map (f h) := by
      simp only [SocketStack.poll, sock]
      cases st.slots h <;> rfl
    rw [portAt, there] at has
    cases here : st.sock h with
    | none => simp [here] at has
    | some s =>
      rw [here] at has
      exact .inl (by simpa [portAt, here] using quiet h s kv has)
  current _ _ now := now
  later := le_rfl

theorem remove (gen h : Nat) : st.Took port T (st.remove gen h) where
  port h' kv has := by
    simp only [portAt, sock, SocketStack.remove, Function.update_apply] at has ⊢
    split at has
    · cases has
    · exact .inl has
  current _ _ now := now
  later := le_rfl

variable (binds : lib.Binds port)

include binds

theorem close (gen h : Nat) : st.Took port T (st.access gen h lib.close) :=
  access (fun s kv has => .inl (binds.close s kv has)) gen h

/-- What opens no socket takes no port. -/
theorem frames : Frames lib (SocketStack.Took port T) where
  refl := refl
  trans := trans
  look _ := look
  close _ := close binds
  abort _ := access fun s kv has => .inl (binds.abort s kv has)
  beginClose _ := beginClose
  remove _ := remove
  listed _ _ := ⟨fun _ _ => .inl, fun _ _ => id, le_rfl⟩

/-- A socket that is told to listen takes the port of the endpoint, or none. -/
theorem listen {ep : IpListenEndpoint} (takes : ep.port ≠ 0 → T (.tcp, ep.port)) (gen h : Nat) :
    st.Took port T (st.attempt gen h fun s => lib.listen s ep).1 := by
  refine attempt (fun s s' kv made has => ?_) gen h
  obtain ⟨nonzero, listens⟩ := binds.listen s ep s' made
  rw [listens] at has
  exact Option.some.inj has ▸ takes nonzero

theorem connect {remote : SocketAddress} {lport : Nat} (takes : T (.tcp, lport)) (gen h : Nat) :
    st.Took port T (st.attempt gen h fun s => lib.connect s remote lport).1 := by
  refine attempt (fun s s' kv made has => ?_) gen h
  rw [binds.connect s remote lport s' made] at has
  exact Option.some.inj has ▸ takes

theorem bind {lport : Nat} (takes : T (.udp, lport)) (gen h : Nat) :
    st.Took port T (st.attempt gen h fun s => lib.bind s lport).1 := by
  refine attempt (fun s s' kv made has => ?_) gen h
  rw [binds.bind s lport s' made] at has
  exact Option.some.inj has ▸ takes

theorem fresh {ep : IpListenEndpoint} (takes : ep.port ≠ 0 → T (.tcp, ep.port)) (st : SocketStack S) :
    st.Took port T (st.fresh lib ep).1 :=
  (addTracked binds.tcp).trans (listen binds takes _ _)

theorem relisten {n : Nat} (takes : n ≠ 0 → T (.tcp, n)) (ep : IpListenEndpoint) (on : ep.port = n) (st : SocketStack S) :
    st.Took port T (st.fresh lib ep).1 :=
  fresh binds (on.symm ▸ takes) st

end Took

end SocketStack

/-! ## Where a call has its port from -/

/-- What has a local port: a socket of the set, a TCP socket that is bound to one, and an accept
stream that puts listeners back on it. -/
inductive PortHolder where
  | socket (h : Nat)
  | resource (i : Nat)
  | producer (p : Nat)
  deriving DecidableEq, Repr

/-- The port that a TCP socket is bound to. -/
def Resource.boundTo : Resource → Option (SockKind × Nat)
  | .tcp s => if s.boundPort = 0 then none else some (.tcp, s.boundPort)
  | .tcp3 s => if s.boundPort = 0 then none else some (.tcp, s.boundPort)
  | _ => none

def TcpSock.startBindSource (addr : SocketAddress) : Source SockKind PortHolder :=
  if addr.2 = 0 then .idle else .names .tcp addr.2

def TcpSock.finishBindSource (s : TcpSock) : Source SockKind PortHolder :=
  if s.boundPort = 0 then .gives .tcp else .idle

def TcpSock.startConnectSource (remote : SocketAddress) : Source SockKind PortHolder :=
  if !remote.1.onFabric then .idle else .gives .tcp

def TcpSocket.bindSource (s : TcpSocket) (addr : SocketAddress) : Source SockKind PortHolder :=
  if s.bound || s.listening || s.connecting || s.connected || s.closed then .idle
  else if s.family ≠ IpFamily.of addr.1 then .idle
  else if addr.2 = 0 then .gives .tcp
  else .names .tcp addr.2

def TcpSocket.connectSource (s : TcpSocket) (i : Nat) (remote : SocketAddress) : Source SockKind PortHolder :=
  if remote.2 = 0 || remote.1.unspecified then .idle
  else if s.connected || s.connecting || s.listening || s.closed then .idle
  else if s.family ≠ IpFamily.of remote.1 then .idle
  else if !remote.1.onFabric then .idle
  else if (if s.bound then s.boundPort else 0) ≠ 0 then .shares .tcp (.resource i)
  else .gives .tcp

def TcpSocket.listenSource (s : TcpSocket) (i : Nat) : Source SockKind PortHolder :=
  if s.listening || s.connecting || s.connected || s.closed then .idle
  else if s.bound && s.boundPort ≠ 0 then .shares .tcp (.resource i)
  else .gives .tcp

namespace UdpSock

variable (s : UdpSock)

/-- A UDP socket is bound to `lport`, 0 for the next one in turn. -/
def bindPortSource (lport : Nat) : Source SockKind PortHolder := if lport = 0 then .gives .udp else .names .udp lport

def finishBindSource : Source SockKind PortHolder := if s.bound then .idle else bindPortSource s.boundPort

def bindSource (addr : SocketAddress) : Source SockKind PortHolder :=
  if s.bound then .idle else if s.family ≠ IpFamily.of addr.1 then .idle else bindPortSource addr.2

def ensureBoundSource : Source SockKind PortHolder := if s.bound then .idle else bindPortSource 0

def connectSource (remote : SocketAddress) : Source SockKind PortHolder :=
  if remote.2 = 0 || remote.1.unspecified then .idle
  else if s.family ≠ IpFamily.of remote.1 then .idle
  else s.ensureBoundSource

end UdpSock

/-! ## What the calls take -/

section Calls

variable {lib port} {T : SockKind × Nat → Prop} {st : SocketStack S} {held : PortHolder → Option (SockKind × Nat)}
  {l : Ledger PortHolder} {i nextPort : Nat}

/-- An operation on a stack takes ports of the source only, and leaves the counter as the ledger
counts. -/
structure Allots (port : S → Option (SockKind × Nat)) (held : PortHolder → Option (SockKind × Nat))
    (l : Ledger PortHolder) (s : Source SockKind PortHolder) (st st' : SocketStack S) (nextPort' : Nat) : Prop where
  took : st.Took port (Takes ephemeral held l s) st'
  turn : nextPort' = ephemeral.turn (l.counted s)

variable (binds : lib.Binds port) (turn : nextPort = ephemeral.turn l.count)

include binds turn in
theorem TcpSock.startConnect_allots (s : TcpSock) (hostAccess : Bool) (remote : SocketAddress) :
    Allots port held l (startConnectSource remote) st (s.startConnect lib st hostAccess nextPort remote).1
      (s.startConnect lib st hostAccess nextPort remote).2.2.1 := by
  simp only [startConnect, startConnectSource]
  by_cases off : (!remote.1.onFabric) = true
  · simp only [if_pos off]
    split
    · exact ⟨.refl st, turn⟩
    · exact ⟨.refl st, turn⟩
  · simp only [if_neg off]
    have given : Takes ephemeral held l (.gives .tcp) (.tcp, (allocPort nextPort).1) := congrArg (Prod.mk _) (allocPort_fst turn)
    split
    · exact ⟨.connect binds given s.gen s.handle, allocPort_snd turn⟩
    · exact ⟨.connect binds given s.gen s.handle, allocPort_snd turn⟩

include binds turn in
theorem TcpSocket.connect_allots (s : TcpSocket) (own : s.boundPort ≠ 0 → held (.resource i) = some (.tcp, s.boundPort))
    (hostAccess : Bool) (remote : SocketAddress) :
    Allots port held l (s.connectSource i remote) st (s.connect lib st hostAccess nextPort remote).1
      (s.connect lib st hostAccess nextPort remote).2.2.1 := by
  simp only [TcpSocket.connect, connectSource]
  by_cases invalid : (remote.2 = 0 || remote.1.unspecified) = true
  · simp only [if_pos invalid]
    exact ⟨.refl st, turn⟩
  by_cases busy : (s.connected || s.connecting || s.listening || s.closed) = true
  · simp only [if_neg invalid, if_pos busy]
    exact ⟨.refl st, turn⟩
  by_cases other : s.family ≠ IpFamily.of remote.1
  · simp only [if_neg invalid, if_neg busy, if_pos other]
    exact ⟨.refl st, turn⟩
  by_cases off : (!remote.1.onFabric) = true
  · simp only [if_neg invalid, if_neg busy, if_neg other, if_pos off]
    split
    · exact ⟨.refl st, turn⟩
    · exact ⟨.refl st, turn⟩
  simp only [if_neg invalid, if_neg busy, if_neg other, if_neg off]
  by_cases bound : (if s.bound = true then s.boundPort else 0) ≠ 0
  · have shared : Takes ephemeral held l (.shares .tcp (.resource i)) (.tcp, if s.bound = true then s.boundPort else 0) := by
      have named : (if s.bound = true then s.boundPort else 0) = s.boundPort := if_pos (by by_contra un; simp [un] at bound)
      rw [named] at bound ⊢
      exact ⟨rfl, own bound⟩
    simp only [if_pos bound]
    generalize (if s.bound = true then s.boundPort else 0) = lport at shared ⊢
    split
    · exact ⟨.connect binds shared s.gen s.handle, turn⟩
    · exact ⟨.connect binds shared s.gen s.handle, turn⟩
  · have given : Takes ephemeral held l (.gives .tcp) (.tcp, (allocPort nextPort).1) := congrArg (Prod.mk _) (allocPort_fst turn)
    simp only [if_neg bound]
    split
    · exact ⟨.connect binds given s.gen s.handle, allocPort_snd turn⟩
    · exact ⟨.connect binds given s.gen s.handle, allocPort_snd turn⟩

/-- What a listener that is opened on `n` takes. -/
theorem opens_took {n : Nat} (takes : n ≠ 0 → T (.tcp, n)) (family : IpFamily) (bound : Option IpAddress) (i : Nat) :
    ((st.listenEndpoints family bound n).getD i ⟨none, 0⟩).port ≠ 0 →
      T (.tcp, ((st.listenEndpoints family bound n).getD i ⟨none, 0⟩).port) := by
  intro nonzero
  rw [List.getD_eq_getElem?_getD] at nonzero ⊢
  cases here : (st.listenEndpoints family bound n)[i]? with
  | none => simp [here] at nonzero
  | some ep =>
    have on := (SocketStack.listenEndpoints_bound st family bound n ep (List.mem_of_getElem? here)).1
    rw [here, Option.getD_some, on] at nonzero
    rw [Option.getD_some, on]
    exact takes nonzero

include binds in
/-- A primary socket and its backlog are opened on `n`. -/
theorem opened_took (st : SocketStack S) {n : Nat} (takes : n ≠ 0 → T (.tcp, n)) (family : IpFamily) (bound : Option IpAddress) (gen h : Nat)
    (is : List Nat) :
    let eps := st.listenEndpoints family bound n
    let opened := st.attempt gen h fun sock => lib.listen sock (eps.headD ⟨none, 0⟩)
    st.Took port T opened.1 ∧ st.Took port T (opened.1.arm lib eps is).1 ∧
      (opened.1.arm lib eps is).1.Dated (opened.1.arm lib eps is).2 := by
  have head : (st.listenEndpoints family bound n).headD ⟨none, 0⟩ = (st.listenEndpoints family bound n).getD 0 ⟨none, 0⟩ := by
    cases st.listenEndpoints family bound n <;> rfl
  dsimp only
  rw [head]
  have first : st.Took port T (st.attempt gen h fun sock => lib.listen sock
      ((st.listenEndpoints family bound n).getD 0 ⟨none, 0⟩)).1 :=
    .listen binds (opens_took takes family bound 0) gen h
  have armed (i : Nat) (st' : SocketStack S) : st'.Took port T
      (st'.fresh lib ((st.listenEndpoints family bound n).getD i ⟨none, 0⟩)).1 :=
    .fresh binds (opens_took takes family bound i) st'
  have rest := (SocketStack.Took.frames binds).arm armed is
    (st.attempt gen h fun sock => lib.listen sock ((st.listenEndpoints family bound n).getD 0 ⟨none, 0⟩)).1
  exact ⟨first, first.trans rest, SocketStack.arm_dated lib _ is _⟩

include binds in
theorem TcpSock.startListen_took (s : TcpSock) (takes : s.boundPort ≠ 0 → T (.tcp, s.boundPort)) :
    st.Took port T (s.startListen lib st).1 := by
  obtain ⟨first, all, -⟩ := opened_took binds st takes s.family (s.localAddress.map Prod.fst) s.gen s.handle
    (List.range' 1 (listenBacklog - 1))
  simp only [startListen]
  split
  · exact all
  · exact first

include binds turn in
theorem UdpSock.bindPort_allots (s : UdpSock) (family : IpFamily) (lport : Nat) :
    Allots port held l (bindPortSource lport) st (s.bindPort lib st nextPort family lport).1
      (s.bindPort lib st nextPort family lport).2.2.1 := by
  simp only [bindPort, bindPortSource]
  by_cases ephemeral' : lport = 0
  · have given : Takes ephemeral held l (.gives .udp) (.udp, (allocPort nextPort).1) := congrArg (Prod.mk _) (allocPort_fst turn)
    simp only [if_pos ephemeral']
    split
    · exact ⟨.bind binds given s.gen s.handle, allocPort_snd turn⟩
    · exact ⟨.bind binds given s.gen s.handle, allocPort_snd turn⟩
  · have named : Takes ephemeral held l (.names .udp lport) (.udp, lport) := rfl
    simp only [if_neg ephemeral']
    split
    · exact ⟨.bind binds named s.gen s.handle, turn⟩
    · exact ⟨.bind binds named s.gen s.handle, turn⟩

section Udp

variable (s : UdpSock)

include binds turn in
theorem UdpSock.finishBind_allots :
    Allots port held l s.finishBindSource st (s.finishBind lib st nextPort).1 (s.finishBind lib st nextPort).2.2.1 := by
  simp only [finishBind, finishBindSource]
  split
  · exact ⟨.refl st, turn⟩
  · exact s.bindPort_allots binds turn _ s.boundPort

include binds turn in
theorem UdpSock.bind_allots (addr : SocketAddress) :
    Allots port held l (s.bindSource addr) st (s.bind lib st nextPort addr).1 (s.bind lib st nextPort addr).2.2.1 := by
  simp only [bind, bindSource]
  split
  · exact ⟨.refl st, turn⟩
  · split
    · exact ⟨.refl st, turn⟩
    · exact s.bindPort_allots binds turn s.family addr.2

include binds turn in
theorem UdpSock.ensureBound_allots :
    Allots port held l s.ensureBoundSource st (s.ensureBound lib st nextPort).1 (s.ensureBound lib st nextPort).2.2.1 := by
  simp only [ensureBound, ensureBoundSource]
  split
  · exact ⟨.refl st, turn⟩
  · exact s.bindPort_allots binds turn s.family 0

include binds turn in
theorem UdpSock.connect_allots (remote : SocketAddress) :
    Allots port held l (s.connectSource remote) st (s.connect lib st nextPort remote).1
      (s.connect lib st nextPort remote).2.2.1 := by
  have ensured : Allots port held l s.ensureBoundSource st (s.ensureBound lib st nextPort).1 _ := s.ensureBound_allots binds turn
  simp only [UdpSock.connect, connectSource]
  split
  · exact ⟨.refl st, turn⟩
  · split
    · exact ⟨.refl st, turn⟩
    · generalize s.ensureBound lib st nextPort = r at ensured ⊢
      obtain ⟨st', s', nextPort', answer⟩ := r
      cases answer <;> exact ensured

include binds turn in
theorem UdpSock.send_allots (hostAccess : Bool) (given : Option SocketAddress) :
    Allots port held l s.ensureBoundSource st (s.send lib st hostAccess nextPort given).1
      (s.send lib st hostAccess nextPort given).2.2.1 := by
  have ensured : Allots port held l s.ensureBoundSource st (s.ensureBound lib st nextPort).1 _ := s.ensureBound_allots binds turn
  simp only [UdpSock.send]
  generalize s.ensureBound lib st nextPort = r at ensured ⊢
  obtain ⟨st', s', nextPort', answer⟩ := r
  cases answer <;> exact ensured

end Udp

/-- What a 0.3 listen comes to. -/
structure Listens (port : S → Option (SockKind × Nat)) (held : PortHolder → Option (SockKind × Nat)) (l : Ledger PortHolder)
    (src : Source SockKind PortHolder) (st : SocketStack S) (s : TcpSocket) (newPool : Nat)
    (r : SocketStack S × TcpSocket × Nat × Except ErrorCode (AcceptProducer × List Claim)) : Prop where
  allots : Allots port held l src st r.1 r.2.2.1
  gen : r.2.1.gen = s.gen
  boundTo : r.2.1.boundPort ≠ s.boundPort → Takes ephemeral held l src (.tcp, r.2.1.boundPort)
  producer : ∀ a pool, r.2.2.2 = .ok (a, pool) → Takes ephemeral held l src (.tcp, a.port) ∧ a.pool = newPool ∧
    (s.gen < st.nextGen → r.1.Dated pool)

include binds turn in
theorem TcpSocket.listen_listens (s : TcpSocket) (own : s.boundPort ≠ 0 → held (.resource i) = some (.tcp, s.boundPort))
    (newPool : Nat) : Listens port held l (s.listenSource i) st s newPool (s.listen lib st nextPort newPool) := by
  simp only [TcpSocket.listen, listenSource]
  by_cases busy : (s.listening || s.connecting || s.connected || s.closed) = true
  · simp only [if_pos busy]
    exact ⟨⟨.refl st, turn⟩, rfl, fun differs => absurd rfl differs, fun _ _ same => by cases same⟩
  simp only [if_neg busy]
  -- It listens on the port it is bound to, or on the next one in turn.
  obtain ⟨n, nextPort', src, picks, from', takes, turn'⟩ : ∃ n nextPort' src,
      (if (s.bound && s.boundPort ≠ 0) = true then (s.boundPort, nextPort) else allocPort nextPort) = (n, nextPort') ∧
        (if (s.bound && s.boundPort ≠ 0) = true then Source.shares SockKind.tcp (PortHolder.resource i) else .gives .tcp) = src ∧
        Takes ephemeral held l src (.tcp, n) ∧ nextPort' = ephemeral.turn (l.counted src) := by
    by_cases bound : (s.bound && s.boundPort ≠ 0) = true
    · have nonzero : s.boundPort ≠ 0 := by simpa using (Bool.and_eq_true_iff.1 bound).2
      exact ⟨_, _, _, if_pos bound, if_pos bound, ⟨rfl, own nonzero⟩, turn⟩
    · exact ⟨_, _, _, if_neg bound, if_neg bound, congrArg (Prod.mk _) (allocPort_fst turn), allocPort_snd turn⟩
  simp only [picks, from']
  obtain ⟨first, all, dated⟩ := opened_took binds st (fun _ => takes) s.family (s.localAddress.map Prod.fst) s.gen s.handle
    (List.range' 1 (listenBacklog - 1))
  split
  · refine ⟨⟨all, turn'⟩, rfl, fun _ => takes, fun a pool same => ?_⟩
    cases same
    refine ⟨takes, rfl, fun given c member => ?_⟩
    rcases List.mem_cons.1 member with rfl | member
    · exact Nat.lt_of_lt_of_le given all.later
    · exact dated c member
  · exact ⟨⟨first, turn'⟩, rfl, fun differs => absurd rfl differs, fun _ _ same => by cases same⟩

/-- Whether a pool has a current socket. -/
def SocketStack.serves (st : SocketStack S) (pool : List Claim) : Bool := pool.any fun c => st.isCurrent c.1 c.2

/-- What a poll of an accept stream comes to. -/
structure Polls (port : S → Option (SockKind × Nat)) (T : SockKind × Nat → Prop) (me : AcceptProducer) (pool : List Claim)
    (st : SocketStack S) (r : SocketStack S × List Claim × Produced) : Prop where
  took : st.Took port T r.1
  dated : r.1.Dated r.2.1
  accepted : ∀ s, r.2.2 = .accepted s → s.gen < r.1.nextGen ∧ s.boundPort = me.port ∧ st.serves pool = true
  idle : st.serves pool = false → r = (st, pool, .dropped)

include binds in
theorem AcceptProducer.pollProduce_polls (me : AcceptProducer) {pool : List Claim} (dated : st.Dated pool)
    (takes : st.serves pool = true → T (.tcp, me.port)) : Polls port T me pool st (me.pollProduce lib pool st) := by
  have gone : (pool.all fun c => !st.isCurrent c.1 c.2) = !st.serves pool := by
    rw [SocketStack.serves, List.not_any_eq_all_not]
  simp only [pollProduce, gone]
  cases serves : st.serves pool with
  | false =>
    simp only [Bool.not_false, if_true]
    exact ⟨.refl st, dated, fun s same => (by cases same), fun _ => rfl⟩
  | true =>
    have runs : st.serves pool ≠ false := by simp [serves]
    have takes' : me.port ≠ 0 → T (.tcp, me.port) := fun _ => takes serves
    have refused := (SocketStack.Took.frames binds).refuseAll (.relisten binds takes') TcpState.left me.family pool st
    have dated₁ : (st.refuseAll lib TcpState.left me.family me.port pool).1.Dated
        (st.refuseAll lib TcpState.left me.family me.port pool).2 := SocketStack.refuseAll_dated dated
    simp only [Bool.not_true, Bool.false_eq_true, if_false]
    generalize st.refuseAll lib TcpState.left me.family me.port pool = r at refused dated₁ ⊢
    obtain ⟨st₁, pool₁⟩ := r
    have found : st₁.Took port T (st₁.position lib TcpState.left pool₁).1 := (SocketStack.Took.frames binds).position
    obtain ⟨-, there⟩ := SocketStack.position_spec lib TcpState.left pool₁ st₁
    dsimp only at refused dated₁ ⊢
    generalize st₁.position lib TcpState.left pool₁ = r at found there ⊢
    obtain ⟨st₂, idx⟩ := r
    cases idx with
    | none => exact ⟨refused.trans found, found.dated dated₁, fun s same => (by cases same), (absurd · runs)⟩
    | some idx =>
      dsimp only at found ⊢
      obtain ⟨conn, here, -⟩ := there idx rfl
      have taken : pool₁.getD idx (0, 0) = conn := by rw [List.getD_eq_getElem?_getD, here]; rfl
      rw [taken]
      have again := SocketStack.relistenEp_port lib (st₂.access conn.2 conn.1 id) (st₂.sock conn.1) me.family me.port
      have armed := SocketStack.Took.relisten binds takes' _ again (st₂.access conn.2 conn.1 id)
      have fresh := SocketStack.fresh_dated lib (SocketStack.relistenEp lib (st₂.access conn.2 conn.1 id)
        (st₂.sock conn.1) me.family me.port) (st₂.access conn.2 conn.1 id)
      have all := ((refused.trans found).trans (.look conn.2 conn.1)).trans armed
      have pool_dated := ((found.trans (.look conn.2 conn.1)).trans armed).dated dated₁
      have given := pool_dated conn (List.mem_of_getElem? here)
      split
      · refine ⟨all, fun c member => ?_, fun s same => ?_, (absurd · runs)⟩
        · rcases List.mem_or_eq_of_mem_set member with old | rfl
          · exact pool_dated c old
          · exact fresh
        · cases same
          exact ⟨given, rfl, serves⟩
      · refine ⟨all.trans (.beginClose _ _ .tcp), fun c member => ?_, fun s same => ?_, (absurd · runs)⟩
        · exact (pool_dated c (List.mem_of_mem_eraseIdx member)).trans_eq (SocketStack.nextGen_beginClose ..).symm
        · cases same
          exact ⟨given.trans_eq (SocketStack.nextGen_beginClose ..).symm, rfl, serves⟩

end Calls

theorem SocketStack.Took.serves {port : S → Option (SockKind × Nat)} {T : SockKind × Nat → Prop} {st st' : SocketStack S} (took : st.Took port T st') {pool : List Claim} (dated : st.Dated pool)
    (serves : st'.serves pool = true) : st.serves pool = true := by
  obtain ⟨c, member, current⟩ := List.any_eq_true.1 serves
  exact List.any_eq_true.2 ⟨c, member, took.current c (dated c member) current⟩

end Stack

end Wk.Fabric
