/-
# Wk.Fabric.Listeners -- a pool of one-shot listeners as a backlog

A listening socket of the TCP/IP library takes one connection and is that connection from
then on, so a listener of the guest is a pool of them: an accept takes a connected socket
out and puts a fresh listener in its slot, on the endpoint the finished one had.  Between
two accepts the peers move every slot through the states of TCP.

* `Moves`: what a segment may do to a socket that listens, or did.
* `Fits`: a slot as it should be, for the endpoint it was armed with.
* `Serving.Lawful`: nothing is lost, and the pool stays what `listen` made of it.
-/
import Wk.Fabric.Owners

namespace Wk.Fabric

open Wk.Library

set_option autoImplicit false

/-! ## The passive side of TCP -/

/-- A segment that reaches a socket, as far as TCP's states tell segments apart. -/
inductive Segment where
  /-- To a local address, from a remote one. -/
  | syn (here there : SocketAddress)
  | ack
  | data
  | fin
  | rst
  deriving DecidableEq, Repr

section Moves

variable {S : Type} (lib : SocketLib S) (heard : S → IpListenEndpoint)

/-- The endpoints of the connection, and the one that was listened at, are the same. -/
structure SameEnds (s s' : S) : Prop where
  heard : heard s' = heard s
  here : lib.localEndpoint s' = lib.localEndpoint s
  there : lib.remoteEndpoint s' = lib.remoteEndpoint s

/-- The connection is forgotten, and what was listened at is not. -/
structure Forgets (s s' : S) : Prop where
  heard : heard s' = heard s
  here : lib.localEndpoint s' = none
  there : lib.remoteEndpoint s' = none

/-- What the TCP state machine lets a segment do to a socket that was told to listen and is
not closed by its own side. -/
inductive Moves : Segment → S → S → Prop
  | stays {seg : Segment} {s s' : S} (state : lib.state s' = lib.state s) (ends : SameEnds lib heard s s') :
      Moves seg s s'
  | syn {here there : SocketAddress} {s s' : S} (listening : lib.state s = .listen)
      (state : lib.state s' = .synReceived) (kept : heard s' = heard s) (port : (heard s).port = here.2)
      (addr : (heard s).addr = none ∨ (heard s).addr = some here.1)
      (packet : IpFamily.of there.1 = IpFamily.of here.1) (local' : lib.localEndpoint s' = some here)
      (remote : lib.remoteEndpoint s' = some there) : Moves (.syn here there) s s'
  | established {seg : Segment} {s s' : S} (acks : seg = .ack ∨ seg = .data)
      (arriving : lib.state s = .synReceived) (state : lib.state s' = .established)
      (ends : SameEnds lib heard s s') : Moves seg s s'
  | fin {s s' : S} (open' : lib.state s = .synReceived ∨ lib.state s = .established)
      (state : lib.state s' = .closeWait) (ends : SameEnds lib heard s s') : Moves .fin s s'
  /-- A reset in the handshake: the socket listens again. -/
  | refused {s s' : S} (arriving : lib.state s = .synReceived) (state : lib.state s' = .listen)
      (ends : Forgets lib heard s s') : Moves .rst s s'
  | reset {s s' : S} (open' : lib.state s = .established ∨ lib.state s = .closeWait)
      (state : lib.state s' = .closed) (ends : Forgets lib heard s s') : Moves .rst s s'

/-- What is asked of the library: a listen succeeds on a fresh socket but for port 0, it
makes the socket listen there, and segments move sockets as TCP says. -/
structure Follows (deliver : Segment → S → S) : Prop where
  listens : lib.Listens
  listen : ∀ s ep s', lib.listen s ep = some s' → ep.port ≠ 0 ∧ lib.state s' = .listen ∧ heard s' = ep
  moves : ∀ seg s, lib.state s = .listen ∨ lib.state s = .synReceived ∨ lib.state s = .established ∨
    lib.state s = .closeWait ∨ lib.state s = .closed → Moves lib heard seg s (deliver seg s)

end Moves

/-! ## The listener of either generation -/

/-- A listener of the guest: a 0.2 socket, or the producer of a 0.3 accept stream with its
pool. -/
inductive Listener where
  | p2 (s : TcpSock)
  | p3 (me : AcceptProducer) (pool : List Claim)

namespace Listener

def pool : Listener → List Claim
  | p2 s => s.pool
  | p3 _ pool => pool

def family : Listener → IpFamily
  | p2 s => s.family
  | p3 me _ => me.family

def port : Listener → Nat
  | p2 s => s.boundPort
  | p3 me _ => me.port

/-- Whether it also takes a connection that is past `Established`. -/
def late : Listener → Bool
  | p2 _ => false
  | p3 .. => true

/-- What it takes for a connection. -/
def peered : Listener → TcpState → Bool
  | p2 _ => TcpState.peered
  | p3 .. => TcpState.left

variable {S : Type} (lib : SocketLib S)

/-- An accept, or a poll of the accept stream: the connection that is handed over. -/
def serve (st : SocketStack S) : Listener → SocketStack S × Listener × Option Claim
  | p2 s =>
    let (st, s, result) := s.accept lib st
    (st, p2 s, match result with
      | .ok conn => some conn.claim
      | .error _ => none)
  | p3 me pool =>
    let (st, pool, produced) := me.pollProduce lib pool st
    (st, p3 me pool, match produced with
      | .accepted conn => some conn.claim
      | _ => none)

end Listener

/-- A listener in its stack, with what it has met so far: `reached` are the connections of
its pool that have left the handshake, `handed` those the guest has been given. -/
structure Serving (S : Type) where
  st : SocketStack S
  listener : Listener
  reached : List Claim := []
  handed : List Claim := []

/-- What happens to a listener. -/
inductive ListenEvent where
  /-- The hub delivers a segment to the socket in slot `h`. -/
  | segment (h : Nat) (seg : Segment)
  | accept
  /-- The hub reaps the closing sockets. -/
  | reap

namespace Serving

variable {S : Type} (lib : SocketLib S) (deliver : Segment → S → S)

/-- The socket in a slot has left the handshake. -/
def left (st : SocketStack S) (h : Nat) : Bool := (st.sock h).any fun s => (lib.state s).left

/-- A segment reaches one socket. -/
def deliverTo (st : SocketStack S) (h : Nat) (seg : Segment) : SocketStack S :=
  st.poll fun h' s => if h' = h then deliver seg s else s

def step (s : Serving S) : ListenEvent → Serving S
  | .segment h seg =>
    let st := deliverTo deliver s.st h seg
    { s with
      st
      reached := s.reached ++
        s.listener.pool.filter fun c => c.1 = h && !left lib s.st h && left lib st h }
  | .accept =>
    let (st, listener, given) := s.listener.serve lib s.st
    { s with st, listener, handed := s.handed ++ given.toList }
  | .reap => { s with st := s.st.reapClosing lib }

/-- A listener whose `listen` has just succeeded, and the endpoints of its bind. -/
inductive Opened : List IpListenEndpoint → Serving S → Prop
  | p2 {st : SocketStack S} {s : TcpSock} (sound : st.Sound) (current : st.live s.handle = some s.gen)
      (listened : (s.startListen lib st).2.2 = .ok ()) :
      Opened (st.listenEndpoints s.family (s.localAddress.map Prod.fst) s.boundPort)
        { st := (s.startListen lib st).1, listener := .p2 (s.startListen lib st).2.1 }
  | p3 {st : SocketStack S} {s : TcpSocket} {nextPort newPool : Nat} {me : AcceptProducer}
      {pool : List Claim} (sound : st.Sound) (current : st.live s.handle = some s.gen)
      (listened : (s.listen lib st nextPort newPool).2.2.2 = .ok (me, pool)) :
      Opened (st.listenEndpoints s.family (s.localAddress.map Prod.fst) me.port)
        { st := (s.listen lib st nextPort newPool).1, listener := .p3 me pool }

/-! ## The law, and the segments that keep it -/

variable (heard : S → IpListenEndpoint)

/-- What the slots of the pool are armed with, or were before they took a connection. -/
def armed (s : Serving S) : List (Option IpListenEndpoint) :=
  s.listener.pool.map fun c => (s.st.sock c.1).map heard

/-- Nothing is lost: a slot waits for a peer or has a connection still to be handed over, and
what has left the handshake has been handed over once or is such a slot; and the pool is
what `listen` made of it, within the endpoints of the bind. -/
structure Lawful (eps : List IpListenEndpoint) (start s : Serving S) : Prop where
  slots : ∀ c ∈ s.listener.pool, s.st.live c.1 = some c.2 ∧ ∃ sock, s.st.sock c.1 = some sock ∧
    (lib.state sock = .listen ∨ lib.state sock = .synReceived ∨ c ∈ s.reached ∧ c ∉ s.handed)
  handed : s.handed.Nodup
  reached : ∀ c, c ∈ s.reached ↔ c ∈ s.handed ∨ c ∈ s.listener.pool ∧ left lib s.st c.1 = true
  size : s.listener.pool.length = listenBacklog
  armed : s.armed heard = start.armed heard
  within : ∀ ep ∈ s.armed heard, ∃ given ∈ eps, ep = some given

/-- Where a connection is still to be handed over, an accept hands one over. -/
def Delivers (s : Serving S) (e : ListenEvent) : Prop :=
  e = .accept → (∃ c ∈ s.reached, c ∉ s.handed) → (s.listener.serve lib s.st).2.2.isSome = true

end Serving

namespace SocketStack

/-- The node's own address of a family. -/
def nodeIp {S : Type} (st : SocketStack S) : IpFamily → IpAddress
  | .v4 => .ipv4 st.ip
  | .v6 => .ipv6 st.ip6

end SocketStack

namespace Serving

variable {S : Type} (lib : SocketLib S)

/-- What a segment to a slot must not be.  For a 0.2 listener, a FIN or a RST to a connection
that waits to be accepted; for a 0.3 stream, a RST to one that waits, but on the node's own
address. -/
def Spares (late : Bool) (node : IpAddress) (seg : Segment) (sock : S) : Prop :=
  match late with
  | false =>
    (seg = .fin → lib.state sock ≠ .synReceived ∧ lib.state sock ≠ .established) ∧
      (seg = .rst → lib.state sock ≠ .established)
  | true => seg = .rst → lib.state sock = .established ∨ lib.state sock = .closeWait →
      (lib.localEndpoint sock).map Prod.fst = some node

def Spared (s : Serving S) : ListenEvent → Prop
  | .segment h seg => h ∈ s.listener.pool.map Prod.fst → ∀ sock, s.st.sock h = some sock →
      Spares lib s.listener.late (s.st.nodeIp s.listener.family) seg sock
  | _ => True

end Serving

/-! ## A slot as it should be -/

section Fits

variable {S : Type} {lib : SocketLib S} {heard : S → IpListenEndpoint}

/-- A slot armed with `ep`: it listens there, or has a connection to there, or, for a 0.3
stream on the node's own address, one that has been reset. -/
structure Fits (lib : SocketLib S) (heard : S → IpListenEndpoint) (late : Bool) (family : IpFamily)
    (node : IpAddress) (ep : IpListenEndpoint) (sock : S) : Prop where
  heard : heard sock = ep
  stage : lib.state sock = .listen ∨
    ((lib.state sock = .synReceived ∨ lib.state sock = .established ∨ late = true ∧ lib.state sock = .closeWait) ∧
      ∃ here there, lib.localEndpoint sock = some here ∧ lib.remoteEndpoint sock = some there ∧
        ep = { addr := some here.1, port := here.2 } ∧ IpFamily.of there.1 = family) ∨
    (late = true ∧ lib.state sock = .closed ∧ lib.localEndpoint sock = none ∧ lib.remoteEndpoint sock = none ∧
      ep.addr = some node)

variable {late : Bool} {family : IpFamily} {node : IpAddress} {ep : IpListenEndpoint} {sock sock' : S}

theorem Fits.follows (fits : Fits lib heard late family node ep sock) :
    lib.state sock = .listen ∨ lib.state sock = .synReceived ∨ lib.state sock = .established ∨
      lib.state sock = .closeWait ∨ lib.state sock = .closed := by
  rcases fits.stage with here | ⟨here | here | ⟨-, here⟩, -⟩ | ⟨-, here, -⟩ <;> simp [here]

/-- A slot with a connection knows both its ends, and is past `Established` only late. -/
theorem Fits.ends (fits : Fits lib heard late family node ep sock)
    (open' : lib.state sock = .synReceived ∨ lib.state sock = .established ∨ lib.state sock = .closeWait) :
    (lib.state sock = .closeWait → late = true) ∧
      ∃ here there, lib.localEndpoint sock = some here ∧ lib.remoteEndpoint sock = some there ∧
        ep = { addr := some here.1, port := here.2 } ∧ IpFamily.of there.1 = family := by
  rcases fits.stage with listening | ⟨state, ends⟩ | ⟨-, closed, -⟩
  · simp [listening] at open'
  · refine ⟨fun waiting => ?_, ends⟩
    rcases state with state | state | ⟨late, -⟩
    · cases state.symm.trans waiting
    · cases state.symm.trans waiting
    · exact late
  · simp [closed] at open'

theorem Fits.armed_of_not_left (fits : Fits lib heard late family node ep sock)
    (stays : (lib.state sock).left = false) : lib.state sock = .listen ∨ lib.state sock = .synReceived := by
  rcases fits.stage with state | ⟨state | state | ⟨-, state⟩, -⟩ | ⟨-, state, -⟩
  · exact .inl state
  · exact .inr state
  all_goals
    rw [state] at stays
    cases stays

/-- A segment that is spared leaves a slot as it should be. -/
theorem Fits.moves (fits : Fits lib heard late family node ep sock) {seg : Segment}
    (bound : ∃ a, ep.addr = some a ∧ IpFamily.of a = family) (moves : Moves lib heard seg sock sock')
    (spared : Serving.Spares lib late node seg sock) :
    Fits lib heard late family node ep sock' := by
  cases moves with
  | stays state same =>
    refine ⟨same.heard.trans fits.heard, ?_⟩
    rw [state, same.here, same.there]
    exact fits.stage
  | @syn here there _ _ listening state kept port addr packet local' remote =>
    refine ⟨kept.trans fits.heard, .inr (.inl ⟨.inl state, here, there, local', remote, ?_, ?_⟩)⟩
    all_goals
      obtain ⟨a, known, of_a⟩ := bound
      rw [fits.heard] at port addr
      obtain rfl : a = here.1 := by simpa [known] using addr
    · rw [← port, ← known]
    · rw [packet, of_a]
  | established acks arriving state same =>
    obtain ⟨-, here, there, local', remote, ends⟩ := fits.ends (.inl arriving)
    exact ⟨same.heard.trans fits.heard, .inr (.inl ⟨.inr (.inl state), here, there,
      same.here.trans local', same.there.trans remote, ends⟩)⟩
  | fin open' state same =>
    obtain ⟨-, here, there, local', remote, ends⟩ := fits.ends (open'.imp_right .inl)
    have late' : late = true := by
      cases late with
      | true => rfl
      | false => exact absurd open' (not_or.2 (spared.1 rfl))
    exact ⟨same.heard.trans fits.heard, .inr (.inl ⟨.inr (.inr ⟨late', state⟩), here, there,
      same.here.trans local', same.there.trans remote, ends⟩)⟩
  | refused arriving state forgets => exact ⟨forgets.heard.trans fits.heard, .inl state⟩
  | reset open' state forgets =>
    obtain ⟨past, here, there, local', remote, ends, -⟩ := fits.ends (.inr open')
    cases late with
    | false =>
      rcases open' with established | waiting
      · exact absurd established (spared.2 rfl)
      · cases past waiting
    | true =>
      have own := spared rfl open'
      rw [local'] at own
      exact ⟨forgets.heard.trans fits.heard,
        .inr (.inr ⟨rfl, state, forgets.here, forgets.there, by rw [ends]; exact own⟩)⟩

end Fits
/-! ## What the pool operations do to a pool as it should be -/

namespace SocketStack

variable {S : Type} {lib : SocketLib S} {heard : S → IpListenEndpoint}

/-- The same stack, but for the record of who has looked at what. -/
def Looked (st st' : SocketStack S) : Prop := ∃ touched, st' = { st with touched }

namespace Looked

theorem refl (st : SocketStack S) : st.Looked st := ⟨st.touched, rfl⟩

theorem trans {st st' st'' : SocketStack S} (first : st.Looked st') (second : st'.Looked st'') :
    st.Looked st'' := by
  obtain ⟨_, rfl⟩ := first
  obtain ⟨touched, rfl⟩ := second
  exact ⟨touched, rfl⟩

theorem access (st : SocketStack S) (gen h : Nat) : st.Looked (st.access gen h id) := by
  refine ⟨st.touched ++ [{ holder := gen, found := (st.slots h).map Slot.gen }], ?_⟩
  have slots : Function.update st.slots h ((st.slots h).map fun s => { s with sock := id s.sock }) = st.slots := by
    refine (congrArg _ ?_).trans (Function.update_eq_self h st.slots)
    cases st.slots h <;> rfl
  rw [SocketStack.access, slots]

variable {st st' : SocketStack S}

theorem sock (looked : st.Looked st') : st'.sock = st.sock := by
  obtain ⟨_, rfl⟩ := looked
  rfl

theorem live (looked : st.Looked st') : st'.live = st.live := by
  obtain ⟨_, rfl⟩ := looked
  rfl

theorem nextGen (looked : st.Looked st') : st'.nextGen = st.nextGen := by
  obtain ⟨_, rfl⟩ := looked
  rfl

theorem nodeIp (looked : st.Looked st') : st'.nodeIp = st.nodeIp := by
  obtain ⟨_, rfl⟩ := looked
  rfl

end Looked

/-- A stack with one socket more, in a slot that was free, and nothing else changed. -/
structure Added (st st' : SocketStack S) (c : Claim) (sock : S) : Prop where
  sound : st'.Sound
  gen : c.2 = st.nextGen
  nextGen : st'.nextGen = st.nextGen + 1
  free : st.live c.1 = none
  live : st'.live = Function.update st.live c.1 (some c.2)
  sock : st'.sock = Function.update st.sock c.1 (some sock)
  nodeIp : st'.nodeIp = st.nodeIp

/-- A fresh socket is told to listen, and does. -/
theorem fresh_added {deliver : Segment → S → S} (follows : Follows lib heard deliver) {st : SocketStack S}
    (sound : st.Sound) {ep : IpListenEndpoint} (port : ep.port ≠ 0) :
    (st.fresh lib ep).2.2 = true ∧
      ∃ sock, lib.state sock = .listen ∧ heard sock = ep ∧ st.Added (st.fresh lib ep).1 (st.fresh lib ep).2.1 sock := by
  obtain ⟨sock, listening⟩ := Option.isSome_iff_exists.1 (follows.listens ep port)
  obtain ⟨-, state, at_ep⟩ := follows.listen _ _ _ listening
  have added := sound.addTracked lib.tcp
  refine ⟨fresh_ok lib st (follows.listens ep port), sock, state, at_ep, ?_, rfl, rfl, sound.live_freeSlot, rfl, ?_, rfl⟩
  · exact added.access (added.live _ _ (Function.update_self ..)) fun s => (lib.listen s ep).getD s
  · funext h
    simp only [fresh, attempt, access, SocketStack.sock, track, add, Function.update_apply, if_pos]
    split
    · simp [listening]
    · rfl

/-- Every claim of a pool is on a live socket, whose peer, if it has one, is of the family. -/
def Calm (lib : SocketLib S) (peered : TcpState → Bool) (family : IpFamily) (st : SocketStack S)
    (pool : List Claim) : Prop :=
  ∀ c ∈ pool, st.live c.1 = some c.2 ∧ ∀ sock, st.sock c.1 = some sock →
    peered (lib.state sock) = true → (lib.remoteEndpoint sock).all (fun ep => IpFamily.of ep.1 = family) = true

theorem Calm.looked {peered : TcpState → Bool} {family : IpFamily} {st st' : SocketStack S} {pool : List Claim}
    (calm : st.Calm lib peered family pool) (looked : st.Looked st') : st'.Calm lib peered family pool := by
  intro c member
  rw [looked.live, looked.sock]
  exact calm c member

/-- In a calm pool nothing is refused. -/
theorem refuseAll_calm {peered : TcpState → Bool} {family : IpFamily} (port : Nat) :
    ∀ {pool : List Claim} {st : SocketStack S}, st.Calm lib peered family pool → st.Sound →
      (st.refuseAll lib peered family port pool).2 = pool ∧
        st.Looked (st.refuseAll lib peered family port pool).1 ∧
          (st.refuseAll lib peered family port pool).1.Sound
  | [], st, _, sound => ⟨rfl, .refl st, sound⟩
  | c :: pool, st, calm, sound => by
    obtain ⟨live, family'⟩ := calm c List.mem_cons_self
    have one : st.refuse lib peered family port c = (st.access c.2 c.1 id, c) := by
      have fine : (!((st.sock c.1).map lib.state).any peered ||
          ((st.sock c.1).bind lib.remoteEndpoint).all fun ep => IpFamily.of ep.1 = family) = true := by
        cases there : st.sock c.1 with
        | none => rfl
        | some sock =>
          cases peer : peered (lib.state sock) with
          | false => simp [peer]
          | true => simpa [peer] using family' sock there peer
      unfold refuse
      rw [if_neg (by simp [isCurrent, live])]
      exact if_pos fine
    have looked := Looked.access st c.2 c.1
    have rest := refuseAll_calm port
      (Calm.looked (fun c' member => calm c' (List.mem_cons_of_mem _ member)) looked)
      (sound.access (sound.live _ _ live) id)
    simp only [refuseAll, one]
    exact ⟨congrArg (c :: ·) rest.1, looked.trans rest.2.1, rest.2.2⟩

/-- In a pool of live sockets the position found is the first with a peer. -/
theorem position_calm (lib : SocketLib S) (peered : TcpState → Bool) : ∀ {pool : List Claim} {st : SocketStack S},
    (∀ c ∈ pool, st.live c.1 = some c.2) → st.Sound →
      (st.position lib peered pool).2 = pool.findIdx? (fun c => (st.sock c.1).any fun s => peered (lib.state s)) ∧
        st.Looked (st.position lib peered pool).1 ∧ (st.position lib peered pool).1.Sound
  | [], st, _, sound => ⟨rfl, .refl st, sound⟩
  | c :: pool, st, current, sound => by
    have live := current c List.mem_cons_self
    have looked := Looked.access st c.2 c.1
    have sound' := sound.access (sound.live _ _ live) id
    unfold position
    rw [if_pos (isCurrent_iff.2 live), List.findIdx?_cons]
    cases found : (st.sock c.1).any fun s => peered (lib.state s) with
    | true => exact ⟨rfl, looked, sound'⟩
    | false =>
      have rest := position_calm lib peered
        (fun c' member => (congrFun looked.live c'.1).trans (current c' (List.mem_cons_of_mem _ member))) sound'
      rw [looked.sock] at rest
      refine ⟨?_, looked.trans rest.2.1, rest.2.2⟩
      simp only [Bool.false_eq_true, if_false, rest.1]

/-- The endpoints of a bind are on its port, at addresses of its family. -/
def Bound (family : IpFamily) (port : Nat) (eps : List IpListenEndpoint) : Prop :=
  ∀ ep ∈ eps, ep.port = port ∧ ∃ a, ep.addr = some a ∧ IpFamily.of a = family

theorem listenEndpoints_bound (st : SocketStack S) (family : IpFamily) (bound : Option IpAddress) (port : Nat) :
    Bound family port (st.listenEndpoints family bound port) := by
  have all : ∀ a b : IpAddress, IpFamily.of a = family → IpFamily.of b = family →
      Bound family port ([a, b].map fun addr => { addr := some addr, port }) := by
    intro a b of_a of_b ep member
    obtain ⟨addr, listed, rfl⟩ := List.mem_map.1 member
    rcases List.mem_pair.1 listed with rfl | rfl
    · exact ⟨rfl, _, rfl, of_a⟩
    · exact ⟨rfl, _, rfl, of_b⟩
  have every : Bound family port (st.listenEndpoints family none port) := by
    cases family
    · exact all _ _ rfl rfl
    · exact all _ _ rfl rfl
  cases bound with
  | none => exact every
  | some addr =>
    unfold listenEndpoints
    dsimp only
    split
    · next concrete =>
        simp only [Bool.and_eq_true, decide_eq_true_eq] at concrete
        intro ep member
        cases List.mem_singleton.1 member
        exact ⟨rfl, addr, rfl, concrete.2⟩
    · exact every

/-- A pool as it should be, slot by slot. -/
structure Stocked (lib : SocketLib S) (heard : S → IpListenEndpoint) (late : Bool) (family : IpFamily)
    (st : SocketStack S) (pool : List Claim) (eps : List IpListenEndpoint) : Prop where
  size : pool.length = eps.length
  slot : ∀ (i : Nat) (c : Claim) (ep : IpListenEndpoint), pool[i]? = some c → eps[i]? = some ep →
    st.live c.1 = some c.2 ∧ ∃ sock, st.sock c.1 = some sock ∧ Fits lib heard late family (st.nodeIp family) ep sock

variable {late : Bool} {family : IpFamily} {port : Nat} {st : SocketStack S} {pool : List Claim}
  {eps : List IpListenEndpoint}

theorem Stocked.of_mem (stocked : Stocked lib heard late family st pool eps) {c : Claim} (member : c ∈ pool) :
    st.live c.1 = some c.2 ∧
      ∃ ep ∈ eps, ∃ sock, st.sock c.1 = some sock ∧ Fits lib heard late family (st.nodeIp family) ep sock := by
  obtain ⟨i, bound, rfl⟩ := List.mem_iff_getElem.1 member
  have armed : i < eps.length := stocked.size ▸ bound
  obtain ⟨live, sock⟩ := stocked.slot i _ _ (List.getElem?_eq_getElem bound) (List.getElem?_eq_getElem armed)
  exact ⟨live, _, List.getElem_mem armed, sock⟩

/-- What accepts take has left the handshake. -/
def Leaves (peered : TcpState → Bool) : Prop := ∀ state, peered state = true → state.left = true

theorem Stocked.calm (stocked : Stocked lib heard late family st pool eps) {peered : TcpState → Bool}
    (leaves : Leaves peered) : st.Calm lib peered family pool := by
  intro c member
  obtain ⟨live, ep, -, sock, there, fits⟩ := stocked.of_mem member
  refine ⟨live, fun sock' there' peer => ?_⟩
  cases there.symm.trans there'
  have left := leaves _ peer
  rcases fits.stage with listening | ⟨-, here, there, -, remote, -, family'⟩ | ⟨-, -, -, remote, -⟩
  · rw [listening] at left
    cases left
  · simp [remote, family']
  · simp [remote]

/-- The slot of a connection is armed again as it was. -/
theorem relistenEp_of_fits {ep : IpListenEndpoint} {sock : S} (fits : Fits lib heard late family (st.nodeIp family) ep sock)
    (left : (lib.state sock).left = true) (port' : ep.port = port) :
    st.relistenEp lib (some sock) family port = ep := by
  subst port'
  unfold relistenEp
  rcases fits.stage with listening | ⟨-, here, there, local', -, ends, -⟩ | ⟨-, -, local', -, own⟩
  · rw [listening] at left
    cases left
  · rw [Option.bind_some, local']
    exact ends ▸ rfl
  · rw [Option.bind_some, local']
    cases family <;> exact (congrArg (IpListenEndpoint.mk · _) own).symm

/-- What an accept, or a poll, does to a pool as it should be: it finds no peer, or hands over
the first connection and arms its slot as it was. -/
inductive Serves (lib : SocketLib S) (heard : S → IpListenEndpoint) (peered : TcpState → Bool)
    (eps : List IpListenEndpoint) (st : SocketStack S) (pool : List Claim) :
    SocketStack S → List Claim → Option Claim → Prop
  | waits {st' : SocketStack S} (looked : st.Looked st') (sound : st'.Sound)
      (nobody : ∀ c ∈ pool, (st.sock c.1).any (fun s => peered (lib.state s)) = false) :
      Serves lib heard peered eps st pool st' pool none
  | hands {idx : Nat} {conn fresh : Claim} {ep : IpListenEndpoint} {sock new : S} {st' st'' : SocketStack S}
      (slot : pool[idx]? = some conn) (armed : eps[idx]? = some ep) (there : st.sock conn.1 = some sock)
      (peer : peered (lib.state sock) = true) (looked : st.Looked st') (added : st'.Added st'' fresh new)
      (listening : lib.state new = .listen) (at_ep : heard new = ep) :
      Serves lib heard peered eps st pool st'' (pool.set idx fresh) (some conn)

/-- The common part of both generations' accepts, once the position is known. -/
theorem Stocked.take {deliver : Segment → S → S} (follows : Follows lib heard deliver)
    (stocked : Stocked lib heard late family st pool eps) (bound : Bound family port eps) (port' : port ≠ 0)
    {peered : TcpState → Bool} (leaves : Leaves peered) {st' : SocketStack S} (looked : st.Looked st')
    (sound : st'.Sound) {idx : Nat}
    (found : pool.findIdx? (fun c => (st.sock c.1).any fun s => peered (lib.state s)) = some idx) :
    ∃ conn fresh st'', pool[idx]? = some conn ∧
      (st'.access conn.2 conn.1 id).fresh lib
          ((st'.access conn.2 conn.1 id).relistenEp lib (st'.sock conn.1) family port) = (st'', fresh, true) ∧
        Serves lib heard peered eps st pool st'' (pool.set idx fresh) (some conn) := by
  obtain ⟨within, peer, -⟩ := List.findIdx?_eq_some_iff_getElem.1 found
  have armed : idx < eps.length := stocked.size ▸ within
  have there : eps[idx]? = some eps[idx] := List.getElem?_eq_getElem armed
  obtain ⟨live, sock, at_slot, fits⟩ := stocked.slot idx _ _ (List.getElem?_eq_getElem within) there
  rw [at_slot, Option.any_some] at peer
  have looked' : st.Looked (st'.access pool[idx].2 pool[idx].1 id) := looked.trans (.access ..)
  have sound' : (st'.access pool[idx].2 pool[idx].1 id).Sound :=
    sound.access (sound.live _ _ (by rw [looked.live]; exact live)) id
  have ep := bound _ (List.mem_of_getElem? there)
  have again : (st'.access pool[idx].2 pool[idx].1 id).relistenEp lib (st'.sock pool[idx].1) family port = eps[idx] := by
    rw [looked.sock, at_slot]
    rw [← looked'.nodeIp] at fits
    exact relistenEp_of_fits fits (leaves _ peer) ep.1
  obtain ⟨ok, new, listening, at_ep, added⟩ := fresh_added follows sound' (ep.1 ▸ port')
  refine ⟨pool[idx], _, _, List.getElem?_eq_getElem within, ?_,
    .hands (List.getElem?_eq_getElem within) there at_slot peer looked' added listening at_ep⟩
  rw [again, ← ok]

end SocketStack

namespace Listener

open SocketStack

variable {S : Type} {lib : SocketLib S} {heard : S → IpListenEndpoint} {deliver : Segment → S → S}
  {st : SocketStack S} {eps : List IpListenEndpoint}

theorem leaves_peered (l : Listener) : Leaves l.peered := by
  intro state peer
  cases l with
  | p2 => cases state <;> first | rfl | cases peer
  | p3 => exact peer

/-- What has left the handshake in a slot as it should be is what the listener takes. -/
theorem peered_of_left (l : Listener) {family : IpFamily} {node : IpAddress} {ep : IpListenEndpoint} {sock : S}
    (fits : Fits lib heard l.late family node ep sock) (left : (lib.state sock).left = true) :
    l.peered (lib.state sock) = true := by
  cases l with
  | p3 => exact left
  | p2 =>
    rcases fits.stage with state | ⟨state | state | ⟨late, -⟩, -⟩ | ⟨late, -⟩
    · rw [state] at left
      cases left
    · rw [state] at left
      cases left
    · exact congrArg TcpState.peered state
    · cases late
    · cases late

theorem pool_withPool (s : TcpSock) {pool : List Claim} (some' : pool ≠ []) : (s.withPool pool).pool = pool := by
  cases pool with
  | nil => exact absurd rfl some'
  | cons c backlog => rfl

theorem withPool_same (s : TcpSock) (pool : List Claim) :
    (s.withPool pool).family = s.family ∧ (s.withPool pool).boundPort = s.boundPort := by
  cases pool <;> exact ⟨rfl, rfl⟩

theorem serve_serves (follows : Follows lib heard deliver) (l : Listener)
    (stocked : Stocked lib heard l.late l.family st l.pool eps) (bound : Bound l.family l.port eps)
    (port : l.port ≠ 0) (sound : st.Sound) (some' : l.pool ≠ []) :
    (l.serve lib st).2.1.late = l.late ∧ (l.serve lib st).2.1.family = l.family ∧
      (l.serve lib st).2.1.port = l.port ∧
        Serves lib heard l.peered eps st l.pool (l.serve lib st).1 (l.serve lib st).2.1.pool (l.serve lib st).2.2 := by
  obtain ⟨refused, looked, sound'⟩ := refuseAll_calm l.port (stocked.calm l.leaves_peered) sound
  have running : (l.pool.all fun c => !st.isCurrent c.1 c.2) = false := by
    obtain ⟨c, member⟩ := List.exists_mem_of_ne_nil _ some'
    refine List.all_eq_false.2 ⟨c, member, ?_⟩
    simp [isCurrent, (stocked.of_mem member).1]
  rcases at_refused : st.refuseAll lib l.peered l.family l.port l.pool with ⟨st₁, pool₁⟩
  rw [at_refused] at refused looked sound'
  obtain rfl : pool₁ = l.pool := refused
  obtain ⟨found, looked', sound''⟩ := position_calm lib l.peered
    (fun c member => by rw [looked.live]; exact (stocked.of_mem member).1) sound'
  rcases at_found : st₁.position lib l.peered l.pool with ⟨st₂, idx⟩
  rw [at_found, looked.sock] at found
  rw [at_found] at looked' sound''
  cases idx with
  | none =>
    have nobody := List.findIdx?_eq_none_iff.1 found.symm
    have waits : Serves lib heard l.peered eps st l.pool st₂ l.pool none :=
      .waits (looked.trans looked') sound'' nobody
    cases l with
    | p2 s =>
      have served : serve lib st (.p2 s) = (st₂, .p2 (s.withPool s.pool), none) := by
        change st.refuseAll lib TcpState.peered s.family s.boundPort s.pool = _ at at_refused
        change st₁.position lib TcpState.peered s.pool = _ at at_found
        simp only [serve, TcpSock.accept, at_refused, Listener.pool, at_found]
      rw [served]
      exact ⟨rfl, rfl, rfl, waits⟩
    | p3 me pool =>
      change (pool.all fun c => !st.isCurrent c.1 c.2) = false at running
      have served : serve lib st (.p3 me pool) = (st₂, .p3 me pool, none) := by
        change st.refuseAll lib TcpState.left me.family me.port pool = _ at at_refused
        change st₁.position lib TcpState.left pool = _ at at_found
        simp only [serve, AcceptProducer.pollProduce, running, Bool.false_eq_true, if_false, at_refused,
          Listener.pool, at_found]
      rw [served]
      exact ⟨rfl, rfl, rfl, waits⟩
  | some idx =>
    obtain ⟨conn, fresh, st₃, at_conn, freshly, hands⟩ := stocked.take follows bound port l.leaves_peered
      (looked.trans looked') sound'' found.symm
    cases l with
    | p2 s =>
      change st.refuseAll lib TcpState.peered s.family s.boundPort s.pool = _ at at_refused
      change st₁.position lib TcpState.peered s.pool = _ at at_found
      change s.pool[idx]? = some conn at at_conn
      have served : serve lib st (.p2 s) = (st₃, .p2 (s.withPool (s.pool.set idx fresh)), some conn) := by
        change SocketStack.fresh lib _ (SocketStack.relistenEp lib _ _ s.family s.boundPort) = _ at freshly
        simp only [serve, TcpSock.accept, at_refused, Listener.pool, at_found, List.getD_eq_getElem?_getD,
          at_conn, Option.getD_some, freshly, if_true]
        rfl
      rw [served]
      refine ⟨rfl, (withPool_same ..).1, (withPool_same ..).2, ?_⟩
      have kept : (s.withPool (s.pool.set idx fresh)).pool = s.pool.set idx fresh :=
        pool_withPool s (by simp [TcpSock.pool])
      change Serves lib heard _ eps st s.pool st₃ (s.withPool (s.pool.set idx fresh)).pool (some conn)
      rw [kept]
      exact hands
    | p3 me pool =>
      change st.refuseAll lib TcpState.left me.family me.port pool = _ at at_refused
      change st₁.position lib TcpState.left pool = _ at at_found
      change pool[idx]? = some conn at at_conn
      change (pool.all fun c => !st.isCurrent c.1 c.2) = false at running
      have served : serve lib st (.p3 me pool) = (st₃, .p3 me (pool.set idx fresh), some conn) := by
        change SocketStack.fresh lib _ (SocketStack.relistenEp lib _ _ me.family me.port) = _ at freshly
        simp only [serve, AcceptProducer.pollProduce, running, Bool.false_eq_true, if_false, at_refused,
          Listener.pool, at_found, List.getD_eq_getElem?_getD, at_conn, Option.getD_some, freshly, if_true]
        rfl
      rw [served]
      exact ⟨rfl, rfl, rfl, hands⟩

end Listener

namespace SocketStack

variable {S : Type} (lib : SocketLib S)

/-- The reaper does not touch a slot that is not closing. -/
theorem sock_reapAll {h : Nat} : ∀ {cs : List Closing} {st : SocketStack S}, (∀ c ∈ cs, c.handle ≠ h) →
    (st.reapAll lib cs).1.sock h = st.sock h
  | [], _, _ => rfl
  | c :: cs, st, elsewhere => by
    have one : (st.reapOne lib c).1.sock h = st.sock h := by
      have other := elsewhere c List.mem_cons_self
      unfold reapOne
      dsimp only
      split
      · simp [sock, remove, SocketStack.access, Function.update_of_ne other.symm]
      · exact congrFun (sock_access_id st c.gen c.handle) h
    exact (sock_reapAll fun c' member => elsewhere c' (List.mem_cons_of_mem _ member)).trans one

theorem nodeIp_reapAll : ∀ (cs : List Closing) (st : SocketStack S), (st.reapAll lib cs).1.nodeIp = st.nodeIp
  | [], _ => rfl
  | c :: cs, st => by
    have one : (st.reapOne lib c).1.nodeIp = st.nodeIp := by
      unfold reapOne
      dsimp only
      split <;> rfl
    exact (nodeIp_reapAll cs _).trans one

end SocketStack

/-! ## What every event keeps -/

namespace Serving

open SocketStack

variable {S : Type} {lib : SocketLib S} {heard : S → IpListenEndpoint} {deliver : Segment → S → S}
  {armed' : List IpListenEndpoint} {s : Serving S}

/-- The invariant: the pool is as it should be, slot by slot, and what has left the handshake
is there or has been handed over. -/
structure Good (lib : SocketLib S) (heard : S → IpListenEndpoint) (armed' : List IpListenEndpoint)
    (s : Serving S) : Prop where
  sound : s.st.Sound
  stocked : Stocked lib heard s.listener.late s.listener.family s.st s.listener.pool armed'
  bound : Bound s.listener.family s.listener.port armed'
  port : s.listener.port ≠ 0
  size : armed'.length = listenBacklog
  dated : ∀ c ∈ s.listener.pool ++ s.handed, c.2 < s.st.nextGen
  distinct : ((s.listener.pool ++ s.handed).map Prod.snd).Nodup
  reached : ∀ c, c ∈ s.reached ↔ c ∈ s.handed ∨ c ∈ s.listener.pool ∧ left lib s.st c.1 = true

/-- What has left the handshake does not come back to it. -/
theorem left_of_moves {seg : Segment} {sock sock' : S} (moves : Moves lib heard seg sock sock')
    (left : (lib.state sock).left = true) : (lib.state sock').left = true := by
  cases moves with
  | stays state => rwa [state]
  | syn listening => rw [listening] at left; cases left
  | established _ arriving => rw [arriving] at left; cases left
  | fin _ state => rw [state]; rfl
  | refused arriving => rw [arriving] at left; cases left
  | reset _ state => rw [state]; rfl

theorem Good.segment (follows : Follows lib heard deliver) (good : Good lib heard armed' s) {h : Nat} {seg : Segment}
    (spared : s.Spared lib (.segment h seg)) : Good lib heard armed' (s.step lib deliver (.segment h seg)) := by
  have sock : ∀ h', (deliverTo deliver s.st h seg).sock h' =
      (s.st.sock h').map fun sock => if h' = h then deliver seg sock else sock := fun h' => by
    simp only [deliverTo, SocketStack.sock, poll]
    cases s.st.slots h' <;> rfl
  have nodeIp : (deliverTo deliver s.st h seg).nodeIp = s.st.nodeIp := rfl
  refine ⟨good.sound.poll fun h' s => if h' = h then deliver seg s else s, ⟨good.stocked.size, fun i c ep at_c at_ep => ?_⟩, good.bound, good.port, good.size,
    good.dated, good.distinct, fun c => ?_⟩
  · obtain ⟨live, sock₀, there, fits⟩ := good.stocked.slot i c ep at_c at_ep
    refine ⟨live, _, (sock c.1).trans (congrArg _ there), ?_⟩
    dsimp only
    split
    · next here =>
        refine fits.moves (good.bound ep (List.mem_of_getElem? at_ep)).2 (follows.moves seg sock₀ fits.follows) ?_
        exact spared (here ▸ List.mem_map_of_mem (List.mem_of_getElem? at_c)) sock₀ (here ▸ there)
    · exact fits
  · have same : c.1 ≠ h → left lib (deliverTo deliver s.st h seg) c.1 = left lib s.st c.1 := fun other => by
      simp only [left, sock, if_neg other, Option.map_id']
    have stays : c ∈ s.listener.pool → left lib s.st c.1 = true →
        left lib (deliverTo deliver s.st h seg) c.1 = true := fun member was => by
      by_cases here : c.1 = h
      · obtain ⟨-, ep, -, sock₀, there, fits⟩ := good.stocked.of_mem member
        simp only [left, sock, there, Option.map_some, Option.any_some, if_pos here] at was ⊢
        exact left_of_moves (follows.moves seg sock₀ fits.follows) was
      · rwa [same here]
    change c ∈ s.reached ++ s.listener.pool.filter (fun c => c.1 = h && !left lib s.st h &&
      left lib (deliverTo deliver s.st h seg) h) ↔ _
    simp only [List.mem_append, good.reached c, List.mem_filter, Bool.and_eq_true, decide_eq_true_eq,
      Bool.not_eq_true']
    constructor
    · rintro ((given | ⟨member, was⟩) | ⟨member, ⟨rfl, -⟩, now⟩)
      · exact .inl given
      · exact .inr ⟨member, stays member was⟩
      · exact .inr ⟨member, now⟩
    · rintro (given | ⟨member, now⟩)
      · exact .inl (.inl given)
      · cases was : left lib s.st c.1 with
        | true => exact .inl (.inr ⟨member, rfl⟩)
        | false =>
          have here : c.1 = h := by
            by_contra other
            exact Bool.false_ne_true (was.symm.trans ((same other).symm.trans now))
          subst here
          exact .inr ⟨member, ⟨rfl, was⟩, now⟩

theorem Good.reap (good : Good lib heard armed' s) : Good lib heard armed' (s.step lib deliver .reap) := by
  have live : (s.st.reapClosing lib).live = s.st.live := live_reapAll lib s.st.closing s.st
  have nodeIp : (s.st.reapClosing lib).nodeIp = s.st.nodeIp := nodeIp_reapAll lib s.st.closing s.st
  have sock : ∀ {h g}, s.st.live h = some g → (s.st.reapClosing lib).sock h = s.st.sock h := fun {h g} there => by
    refine sock_reapAll lib fun c member same => ?_
    have dead := (good.sound.closing c member).2
    rw [same, there] at dead
    cases dead
  refine ⟨good.sound.reapClosing lib, ⟨good.stocked.size, fun i c ep at_c at_ep => ?_⟩, good.bound, good.port,
    good.size, fun c member => ?_, good.distinct, fun c => ?_⟩
  · obtain ⟨there, sock₀, found, fits⟩ := good.stocked.slot i c ep at_c at_ep
    exact ⟨(congrFun live c.1).trans there, sock₀, (sock there).trans found, (congrFun nodeIp _).symm ▸ fits⟩
  · exact lt_of_lt_of_eq (good.dated c member) (nextGen_reapAll lib s.st.closing s.st).symm
  · refine (good.reached c).trans (or_congr_right (and_congr_right fun member => ?_))
    change left lib s.st c.1 = true ↔ left lib (s.st.reapClosing lib) c.1 = true
    rw [left, left, sock (good.stocked.of_mem member).1]

/-- A slot's claim is exchanged for a fresh one. -/
theorem exchange_perm {pool handed : List Claim} {idx : Nat} {conn fresh : Claim} (slot : pool[idx]? = some conn) :
    (pool.set idx fresh ++ (handed ++ [conn])).Perm (fresh :: (pool ++ handed)) := by
  obtain ⟨within, rfl⟩ := List.getElem?_eq_some_iff.1 slot
  calc (pool.set idx fresh ++ (handed ++ [pool[idx]])).Perm (pool[idx] :: (pool.set idx fresh ++ handed)) := by
        rw [← List.append_assoc]
        exact List.perm_append_singleton ..
    _ |>.Perm (pool[idx] :: fresh :: (pool.eraseIdx idx ++ handed)) :=
        ((List.set_perm_cons_eraseIdx within fresh).append_right handed).cons _
    _ |>.Perm (fresh :: pool[idx] :: (pool.eraseIdx idx ++ handed)) := .swap ..
    _ |>.Perm (fresh :: (pool ++ handed)) :=
        ((List.getElem_cons_eraseIdx_perm within).append_right handed).cons fresh

theorem mem_exchange {pool : List Claim} {idx : Nat} {conn fresh c : Claim} (distinct : pool.Nodup)
    (slot : pool[idx]? = some conn) : c ∈ pool.set idx fresh ↔ c = fresh ∨ c ∈ pool ∧ c ≠ conn := by
  obtain ⟨within, rfl⟩ := List.getElem?_eq_some_iff.1 slot
  have perm := List.getElem_cons_eraseIdx_perm within
  have gone := (List.nodup_cons.1 (perm.nodup_iff.2 distinct)).1
  rw [(List.set_perm_cons_eraseIdx within fresh).mem_iff, List.mem_cons, ← perm.mem_iff, List.mem_cons]
  refine or_congr_right ⟨fun rest => ⟨.inr rest, ?_⟩, fun ⟨here, other⟩ => here.resolve_left other⟩
  rintro rfl
  exact gone rest

theorem Good.accept (follows : Follows lib heard deliver) (good : Good lib heard armed' s) :
    Good lib heard armed' (s.step lib deliver .accept) := by
  have some' : s.listener.pool ≠ [] := by
    intro empty
    have size := good.stocked.size.trans good.size
    rw [empty] at size
    cases size
  obtain ⟨late, family, port, serves⟩ :=
    s.listener.serve_serves follows good.stocked good.bound good.port good.sound some'
  have next : s.step lib deliver .accept =
      { s with
        st := (s.listener.serve lib s.st).1
        listener := (s.listener.serve lib s.st).2.1
        handed := s.handed ++ (s.listener.serve lib s.st).2.2.toList } := rfl
  rw [next]
  generalize s.listener.serve lib s.st = served at late family port serves
  obtain ⟨st', listener, given⟩ := served
  dsimp only at late family port serves ⊢
  generalize pool' : listener.pool = newPool at serves
  cases serves with
  | waits looked sound nobody =>
    refine ⟨sound, ⟨pool' ▸ good.stocked.size, fun i c ep at_c at_ep => ?_⟩, ?_, port ▸ good.port, good.size,
      fun c member => ?_, ?_, fun c => ?_⟩
    · rw [late, family, looked.live, looked.sock, looked.nodeIp]
      exact good.stocked.slot i c ep (pool' ▸ at_c) at_ep
    · rw [family, port]
      exact good.bound
    · rw [looked.nextGen]
      refine good.dated c ?_
      simpa [pool'] using member
    · simpa [pool'] using good.distinct
    · simpa [pool', left, looked.sock] using good.reached c
  | @hands idx conn fresh ep sock new st₁ _ slot at_ep there peer looked added listening heard_new =>
    have perm : (listener.pool ++ (s.handed ++ [conn])).Perm (fresh :: (s.listener.pool ++ s.handed)) :=
      pool' ▸ exchange_perm slot
    have apart : ∀ c ∈ s.listener.pool, c.1 ≠ fresh.1 := fun c member same => by
      have free := added.free
      rw [looked.live, ← same, (good.stocked.of_mem member).1] at free
      cases free
    have kept : ∀ c ∈ s.listener.pool, st'.live c.1 = some c.2 ∧ st'.sock c.1 = s.st.sock c.1 := fun c member => by
      rw [added.live, added.sock, Function.update_of_ne (apart c member), Function.update_of_ne (apart c member),
        looked.live, looked.sock]
      exact ⟨(good.stocked.of_mem member).1, rfl⟩
    have nodeIp : st'.nodeIp = s.st.nodeIp := added.nodeIp.trans looked.nodeIp
    have sock_fresh : st'.sock fresh.1 = some new := by rw [added.sock, Function.update_self]
    refine ⟨added.sound, ⟨?_, fun i c ep' at_c at_ep' => ?_⟩, ?_, port ▸ good.port, good.size,
      fun c member => ?_, ?_, fun c => ?_⟩
    · rw [pool', List.length_set]
      exact good.stocked.size
    · rw [pool', List.getElem?_set] at at_c
      rw [late, family, nodeIp]
      split at at_c
      · next here =>
          subst here
          split at at_c
          · cases at_c
            cases at_ep.symm.trans at_ep'
            exact ⟨by rw [added.live, Function.update_self], new, sock_fresh, heard_new, .inl listening⟩
          · cases at_c
      · obtain ⟨-, found⟩ := good.stocked.slot i c ep' at_c at_ep'
        obtain ⟨live, same⟩ := kept c (List.mem_of_getElem? at_c)
        exact ⟨live, same ▸ found⟩
    · rw [family, port]
      exact good.bound
    · rw [added.nextGen, looked.nextGen]
      rcases List.mem_cons.1 (perm.mem_iff.1 member) with rfl | old
      · rw [added.gen, looked.nextGen]
        exact Nat.lt_succ_self _
      · exact Nat.lt_succ_of_lt (good.dated c old)
    · refine (perm.map Prod.snd).nodup_iff.2 (List.nodup_cons.2 ⟨fun listed => ?_, good.distinct⟩)
      obtain ⟨c, member, same⟩ := List.mem_map.1 listed
      have dated := good.dated c member
      rw [same, added.gen, looked.nextGen] at dated
      exact absurd dated (lt_irrefl _)
    · have distinct : s.listener.pool.Nodup :=
        (List.nodup_append.1 (List.Nodup.of_map _ good.distinct)).1
      have was : left lib s.st conn.1 = true := by
        rw [left, there]
        exact s.listener.leaves_peered _ peer
      have not_yet : left lib st' fresh.1 = false := by
        rw [left, sock_fresh, Option.any_some, listening]
        rfl
      have same : ∀ c ∈ s.listener.pool, left lib st' c.1 = left lib s.st c.1 := fun c member => by
        rw [left, left, (kept c member).2]
      rw [good.reached c, pool', mem_exchange distinct slot]
      simp only [Option.toList_some, List.mem_append, List.mem_singleton]
      constructor
      · rintro (given | ⟨member, is_left⟩)
        · exact .inl (.inl given)
        · by_cases here : c = conn
          · exact .inl (.inr here)
          · exact .inr ⟨.inr ⟨member, here⟩, (same c member).trans is_left⟩
      · rintro ((given | rfl) | ⟨rfl | ⟨member, -⟩, is_left⟩)
        · exact .inl given
        · exact .inr ⟨List.mem_of_getElem? slot, was⟩
        · cases not_yet.symm.trans is_left
        · exact .inr ⟨member, (same c member).symm.trans is_left⟩

theorem Good.step (follows : Follows lib heard deliver) (good : Good lib heard armed' s) (e : ListenEvent)
    (spared : s.Spared lib e) : Good lib heard armed' (s.step lib deliver e) := by
  cases e with
  | segment h seg => exact good.segment follows spared
  | accept => exact good.accept follows
  | reap => exact good.reap

theorem Good.armed_eq (good : Good lib heard armed' s) : s.armed heard = armed'.map some := by
  refine List.ext_getElem? fun i => ?_
  rw [armed, List.getElem?_map, List.getElem?_map]
  cases at_c : s.listener.pool[i]? with
  | none =>
    have past := List.getElem?_eq_none_iff.1 at_c
    rw [List.getElem?_eq_none_iff.2 (good.stocked.size ▸ past)]
    rfl
  | some c =>
    have within : i < armed'.length := good.stocked.size ▸ (List.getElem?_eq_some_iff.1 at_c).1
    obtain ⟨-, sock, there, fits⟩ := good.stocked.slot i c _ at_c (List.getElem?_eq_getElem within)
    rw [List.getElem?_eq_getElem within, Option.map_some, Option.map_some, there, Option.map_some, fits.heard]

theorem Good.lawful {eps : List IpListenEndpoint} {start : Serving S} (good : Good lib heard armed' s)
    (started : start.armed heard = armed'.map some) (within : ∀ ep ∈ armed', ep ∈ eps) :
    Lawful lib heard eps start s where
  slots c member := by
    obtain ⟨live, ep, -, sock, there, fits⟩ := good.stocked.of_mem member
    refine ⟨live, sock, there, ?_⟩
    cases is_left : (lib.state sock).left with
    | false => exact (fits.armed_of_not_left is_left).imp_right .inl
    | true =>
      have apart := List.disjoint_of_nodup_append (List.Nodup.of_map _ good.distinct)
      exact .inr (.inr ⟨(good.reached c).2 (.inr ⟨member, by rw [left, there]; exact is_left⟩), apart member⟩)
  handed := (List.nodup_append.1 (List.Nodup.of_map _ good.distinct)).2.1
  reached := good.reached
  size := good.stocked.size.trans good.size
  armed := good.armed_eq.trans started.symm
  within ep member := by
    rw [good.armed_eq] at member
    obtain ⟨given, listed, rfl⟩ := List.mem_map.1 member
    exact ⟨given, within given listed, rfl⟩

theorem Good.delivers (follows : Follows lib heard deliver) (good : Good lib heard armed' s) (e : ListenEvent) :
    s.Delivers lib e := by
  rintro rfl ⟨c, reached, waiting⟩
  obtain ⟨member, is_left⟩ := ((good.reached c).1 reached).resolve_left waiting
  obtain ⟨-, -, -, serves⟩ := s.listener.serve_serves follows good.stocked good.bound good.port good.sound
    (List.ne_nil_of_mem member)
  generalize (s.listener.serve lib s.st).2.2 = given at serves ⊢
  generalize (s.listener.serve lib s.st).2.1.pool = newPool at serves
  cases serves with
  | hands => rfl
  | waits looked sound nobody =>
    obtain ⟨-, ep, -, sock, there, fits⟩ := good.stocked.of_mem member
    have alone := nobody c member
    rw [left, there] at is_left
    rw [there, Option.any_some, s.listener.peered_of_left fits is_left] at alone
    cases alone

/-- A pool that has just been armed. -/
structure Arming (lib : SocketLib S) (heard : S → IpListenEndpoint) (st : SocketStack S) (pool : List Claim)
    (armed : List IpListenEndpoint) : Prop where
  sound : st.Sound
  slots : List.Forall₂ (fun c ep => st.live c.1 = some c.2 ∧
    ∃ sock, st.sock c.1 = some sock ∧ lib.state sock = .listen ∧ heard sock = ep) pool armed
  dated : ∀ c ∈ pool, c.2 < st.nextGen
  distinct : (pool.map Prod.snd).Nodup

theorem Arming.added {st st' : SocketStack S} {pool : List Claim} {armed : List IpListenEndpoint} {c : Claim}
    {new : S} (arming : Arming lib heard st pool armed) (added : st.Added st' c new)
    (listening : lib.state new = .listen) : Arming lib heard st' (pool ++ [c]) (armed ++ [heard new]) where
  sound := added.sound
  slots := by
    refine List.rel_append (arming.slots.imp ?_) (.cons ?_ .nil)
    · rintro c' ep ⟨live, sock⟩
      have apart : c'.1 ≠ c.1 := fun same => by cases (same ▸ live).symm.trans added.free
      rw [added.live, added.sock, Function.update_of_ne apart, Function.update_of_ne apart]
      exact ⟨live, sock⟩
    · rw [added.live, added.sock, Function.update_self, Function.update_self]
      exact ⟨rfl, new, rfl, listening, rfl⟩
  dated c' member := by
    rw [added.nextGen]
    rcases List.mem_append.1 member with old | here
    · exact Nat.lt_succ_of_lt (arming.dated c' old)
    · rw [List.mem_singleton.1 here, added.gen]
      exact Nat.lt_succ_self _
  distinct := by
    rw [List.map_append, List.nodup_append]
    refine ⟨arming.distinct, List.nodup_singleton _, fun g old g' here same => ?_⟩
    obtain ⟨c', member, rfl⟩ := List.mem_map.1 old
    have dated := arming.dated c' member
    rw [same, List.mem_singleton.1 here, added.gen] at dated
    exact absurd dated (lt_irrefl _)

theorem Arming.arm (follows : Follows lib heard deliver) {eps : List IpListenEndpoint}
    (ports : ∀ i : Nat, (eps.getD (i % eps.length) ⟨none, 0⟩).port ≠ 0) :
    ∀ (is : List Nat) {st : SocketStack S} {pool : List Claim} {armed : List IpListenEndpoint},
      Arming lib heard st pool armed →
        Arming lib heard (st.arm lib eps is).1 (pool ++ (st.arm lib eps is).2)
          (armed ++ is.map fun i => eps.getD (i % eps.length) ⟨none, 0⟩)
  | [], st, pool, armed, arming => by simpa [SocketStack.arm] using arming
  | i :: is, st, pool, armed, arming => by
    obtain ⟨ok, new, listening, at_ep, added⟩ := fresh_added follows arming.sound (ports i)
    have rest := Arming.arm follows ports is (arming.added added listening)
    unfold SocketStack.arm
    dsimp only
    rw [if_pos ok]
    simpa [at_ep] using rest

/-- A listen that succeeds arms the pool round-robin over the endpoints. -/
theorem arming_listen (follows : Follows lib heard deliver) {st : SocketStack S} (sound : st.Sound) {c : Claim}
    (current : st.live c.1 = some c.2) {family : IpFamily} {port : Nat} {eps : List IpListenEndpoint}
    (bound : Bound family port eps) (some' : eps ≠ [])
    (ok : (st.attempt c.2 c.1 fun sock => lib.listen sock (eps.headD ⟨none, 0⟩)).2 = true) :
    let st' := (st.attempt c.2 c.1 fun sock => lib.listen sock (eps.headD ⟨none, 0⟩)).1
    port ≠ 0 ∧ ∃ armed, armed.length = listenBacklog ∧ (∀ ep ∈ armed, ep ∈ eps) ∧
      Arming lib heard (st'.arm lib eps (List.range' 1 (listenBacklog - 1))).1
        (c :: (st'.arm lib eps (List.range' 1 (listenBacklog - 1))).2) armed := by
  obtain ⟨sock, there, listening⟩ : ∃ sock, st.sock c.1 = some sock ∧
      (lib.listen sock (eps.headD ⟨none, 0⟩)).isSome = true := by
    obtain ⟨sock', bound'⟩ := Option.isSome_iff_exists.1 ok
    obtain ⟨sock, there, listening⟩ := Option.bind_eq_some_iff.1 bound'
    exact ⟨sock, there, Option.isSome_iff_exists.2 ⟨sock', listening⟩⟩
  obtain ⟨sock', listens⟩ := Option.isSome_iff_exists.1 listening
  obtain ⟨head_port, state, at_head⟩ := follows.listen _ _ _ listens
  have head : eps.headD ⟨none, 0⟩ ∈ eps := by
    cases eps with
    | nil => exact absurd rfl some'
    | cons ep eps => exact List.mem_cons_self
  have given : ∀ i : Nat, eps.getD (i % eps.length) ⟨none, 0⟩ ∈ eps := fun i => by
    have within := Nat.mod_lt i (List.length_pos_of_ne_nil some')
    rw [List.getD_eq_getElem _ _ within]
    exact List.getElem_mem within
  have port' : port ≠ 0 := (bound _ head).1 ▸ head_port
  refine ⟨port', eps.headD ⟨none, 0⟩ :: (List.range' 1 (listenBacklog - 1)).map fun i =>
    eps.getD (i % eps.length) ⟨none, 0⟩, by simp [listenBacklog], fun ep member => ?_, ?_⟩
  · rcases List.mem_cons.1 member with rfl | member
    · exact head
    · obtain ⟨i, -, rfl⟩ := List.mem_map.1 member
      exact given i
  · have one : Arming lib heard (st.attempt c.2 c.1 fun sock => lib.listen sock (eps.headD ⟨none, 0⟩)).1 [c]
        [eps.headD ⟨none, 0⟩] := by
      refine ⟨sound.access (sound.live _ _ current) fun sock => (lib.listen sock (eps.headD ⟨none, 0⟩)).getD sock,
        .cons ⟨current, sock', ?_, state, at_head⟩ .nil, fun c' member => ?_, List.nodup_singleton _⟩
      · obtain ⟨slot, at_slot, rfl⟩ := Option.map_eq_some_iff.1 there
        simp only [attempt, SocketStack.sock, SocketStack.access, Function.update_self, at_slot, Option.map_some,
          listens, Option.getD_some]
      · rw [List.mem_singleton.1 member]
        exact (sound.bounded _ _ (sound.live _ _ current)).2
    exact Arming.arm follows (fun i => (bound _ (given i)).1 ▸ port') _ one

theorem Arming.good {st : SocketStack S} (listener : Listener) {armed : List IpListenEndpoint}
    (arming : Arming lib heard st listener.pool armed) (size : armed.length = listenBacklog)
    (bound : Bound listener.family listener.port armed) (port : listener.port ≠ 0) :
    Good lib heard armed { st, listener } where
  sound := arming.sound
  stocked := by
    refine ⟨arming.slots.length_eq, fun i c ep at_c at_ep => ?_⟩
    obtain ⟨within, rfl⟩ := List.getElem?_eq_some_iff.1 at_c
    obtain ⟨within', rfl⟩ := List.getElem?_eq_some_iff.1 at_ep
    obtain ⟨live, sock, there, listening, at_ep⟩ := (List.forall₂_iff_get.1 arming.slots).2 i within within'
    exact ⟨live, sock, there, at_ep, .inl listening⟩
  bound := bound
  port := port
  size := size
  dated c member := arming.dated c (by simpa using member)
  distinct := by simpa using arming.distinct
  reached c := by
    refine iff_of_false List.not_mem_nil (not_or.2 ⟨List.not_mem_nil, fun ⟨member, is_left⟩ => ?_⟩)
    obtain ⟨i, within, rfl⟩ := List.mem_iff_getElem.1 member
    obtain ⟨-, sock, there, listening, -⟩ :=
      (List.forall₂_iff_get.1 arming.slots).2 i within (arming.slots.length_eq ▸ within)
    simp only [List.get_eq_getElem] at there
    rw [left, there, Option.any_some, listening] at is_left
    cases is_left

theorem listenEndpoints_ne_nil (st : SocketStack S) (family : IpFamily) (bound : Option IpAddress) (port : Nat) :
    st.listenEndpoints family bound port ≠ [] := by
  unfold listenEndpoints
  cases bound with
  | none => cases family <;> exact nofun
  | some addr =>
    dsimp only
    split
    · exact nofun
    · cases family <;> exact nofun

theorem good_open (follows : Follows lib heard deliver) {eps : List IpListenEndpoint} (opened : Opened lib eps s) :
    ∃ armed', Good lib heard armed' s ∧ ∀ ep ∈ armed', ep ∈ eps := by
  cases opened with
  | @p2 st sock sound current listened =>
    have bound := st.listenEndpoints_bound sock.family (sock.localAddress.map Prod.fst) sock.boundPort
    have ok : (st.attempt sock.gen sock.handle fun s => lib.listen s ((st.listenEndpoints sock.family
        (sock.localAddress.map Prod.fst) sock.boundPort).headD ⟨none, 0⟩)).2 = true := by
      by_contra failed
      simp only [TcpSock.startListen] at listened
      rw [if_neg failed] at listened
      cases listened
    obtain ⟨port, armed', size, within, arming⟩ := arming_listen (c := sock.claim) follows sound current bound
      (listenEndpoints_ne_nil st _ _ _) ok
    refine ⟨armed', ?_, within⟩
    simp only [TcpSock.startListen]
    rw [if_pos ok]
    exact Arming.good (.p2 _) arming size (fun ep member => bound ep (within ep member)) port
  | @p3 st sock nextPort newPool me pool sound current listened =>
    by_cases busy : (sock.listening || sock.connecting || sock.connected || sock.closed) = true
    · simp only [TcpSocket.listen] at listened
      rw [if_pos busy] at listened
      cases listened
    · simp only [TcpSocket.listen] at listened ⊢
      rw [if_neg busy] at listened ⊢
      generalize (if (sock.bound && decide (sock.boundPort ≠ 0)) = true then (sock.boundPort, nextPort)
        else allocPort nextPort) = ports at listened ⊢
      have bound := st.listenEndpoints_bound sock.family (sock.localAddress.map Prod.fst) ports.1
      have ok : (st.attempt sock.gen sock.handle fun s => lib.listen s ((st.listenEndpoints sock.family
          (sock.localAddress.map Prod.fst) ports.1).headD ⟨none, 0⟩)).2 = true := by
        by_contra failed
        rw [if_neg failed] at listened
        cases listened
      rw [if_pos ok] at listened ⊢
      cases listened
      obtain ⟨port, armed', size, within, arming⟩ := arming_listen (c := sock.claim) follows sound current bound
        (listenEndpoints_ne_nil st _ _ _) ok
      refine ⟨armed', ?_, within⟩
      exact Arming.good (.p3 _ _) arming size (fun ep member => bound ep (within ep member)) port

/-- **A listener neither loses a connection nor wears out**, as long as its segments are
spared: of a 0.2 listener no connection is closed or reset before it is accepted, of a 0.3
stream none is reset but on the node's own address. -/
theorem listener_lawful (follows : Follows lib heard deliver) {eps : List IpListenEndpoint} {start : Serving S}
    (opened : Opened lib eps start) (events : List ListenEvent)
    (spared : Along (step lib deliver) (Spared lib) start events) :
    Lawful lib heard eps start (events.foldl (step lib deliver) start) ∧
      Along (step lib deliver) (Delivers lib) start events := by
  obtain ⟨armed', good, within⟩ := good_open follows opened
  refine ⟨Good.lawful (spared.keeps (fun _ e met kept => Good.step follows kept e met) good) good.armed_eq within, ?_⟩
  exact spared.imp (fun _ e met kept => Good.step follows kept e met) (fun _ e kept _ => Good.delivers follows kept e) good

/-! ## Poles -/

section Poles

/-- A TCP socket as far as its passive side goes. -/
structure WireSock where
  state : TcpState := .closed
  listening : IpListenEndpoint := ⟨none, 0⟩
  here : Option SocketAddress := none
  there : Option SocketAddress := none
  deriving DecidableEq, Repr

def wireLib : SocketLib WireSock where
  tcp := {}
  udp := {}
  state := WireSock.state
  listen s ep :=
    if ep.port = 0 then none
    else if s.state = .closed then some { state := .listen, listening := ep }
    else if s.state = .listen ∧ s.listening = ep then some s
    else none
  connect _ _ _ := none
  bind s _ := some s
  close s := { s with state := .closed }
  abort s := { s with state := .closed }
  localEndpoint := WireSock.here
  remoteEndpoint := WireSock.there
  sendQueue _ := 0
  canRecv _ := false
  mayRecv s := s.state = .established
  canSend s := s.state = .established
  maySend s := s.state = .established

def wire : Segment → WireSock → WireSock
  | .syn here there, s =>
    if s.state = .listen ∧ s.listening.port = here.2 ∧
        (s.listening.addr = none ∨ s.listening.addr = some here.1) ∧ IpFamily.of there.1 = IpFamily.of here.1 then
      { s with state := .synReceived, here := some here, there := some there }
    else s
  | .ack, s | .data, s => if s.state = .synReceived then { s with state := .established } else s
  | .fin, s =>
    if s.state = .synReceived ∨ s.state = .established then { s with state := .closeWait } else s
  | .rst, s =>
    if s.state = .synReceived then { s with state := .listen, here := none, there := none }
    else if s.state = .established ∨ s.state = .closeWait then
      { s with state := .closed, here := none, there := none }
    else s

theorem wire_follows : Follows wireLib WireSock.listening wire where
  listens ep port := by
    change (if ep.port = 0 then _ else _ : Option WireSock).isSome = true
    rw [if_neg port]
    rfl
  listen s ep s' listens := by
    simp only [wireLib] at listens
    split at listens
    · cases listens
    · next port =>
        split at listens
        · cases listens
          exact ⟨port, rfl, rfl⟩
        · split at listens
          · next already =>
              cases listens
              exact ⟨port, already⟩
          · cases listens
  moves seg s _ := by
    have same : ∀ {seg}, Moves wireLib WireSock.listening seg s s := .stays rfl ⟨rfl, rfl, rfl⟩
    cases seg with
    | syn here there =>
      simp only [wire]
      split
      · next meets => exact .syn meets.1 rfl rfl meets.2.1 meets.2.2.1 meets.2.2.2 rfl rfl
      · exact same
    | ack =>
      simp only [wire]
      split
      · next arriving => exact .established (.inl rfl) arriving rfl ⟨rfl, rfl, rfl⟩
      · exact same
    | data =>
      simp only [wire]
      split
      · next arriving => exact .established (.inr rfl) arriving rfl ⟨rfl, rfl, rfl⟩
      · exact same
    | fin =>
      simp only [wire]
      split
      · next open' => exact .fin open' rfl ⟨rfl, rfl, rfl⟩
      · exact same
    | rst =>
      simp only [wire]
      split
      · next arriving => exact .refused arriving rfl ⟨rfl, rfl, rfl⟩
      · split
        · next open' => exact .reset open' rfl ⟨rfl, rfl, rfl⟩
        · exact same

/-- A node's stack with one TCP socket. -/
def oneSocket : SocketStack WireSock :=
  (({ ip := NetNode.node, ip6 := ula NetNode.node } : SocketStack WireSock).add wireLib.tcp).1.track 0 |>.1

theorem oneSocket_sound : oneSocket.Sound :=
  (SocketStack.Sound.start NetNode.node (ula NetNode.node)).addTracked wireLib.tcp

/-- Port 80 of the node's address, and a peer. -/
def web : SocketAddress := (.ipv4 NetNode.node, 80)

def peer : SocketAddress := (.ipv4 { o0 := 10, o1 := 0, o2 := 0, o3 := 9 }, 50000)

def webSock : TcpSock := { handle := 0, gen := 0, family := .v4, boundPort := 80, localAddress := some web }

/-- A 0.2 socket listens there. -/
def listening2 : Serving WireSock where
  st := (webSock.startListen wireLib oneSocket).1
  listener := .p2 (webSock.startListen wireLib oneSocket).2.1

theorem listening2_opened : Opened wireLib (oneSocket.listenEndpoints .v4 (some web.1) 80) listening2 := by
  have listened : (webSock.startListen wireLib oneSocket).2.2 = .ok () := by decide +kernel
  exact .p2 oneSocket_sound rfl listened

/-- A peer connects and sends, and is accepted. -/
theorem listener_lawful_served :
    let served : List ListenEvent := [.segment 0 (.syn web peer), .segment 0 .ack, .segment 0 .data, .accept, .reap]
    Lawful wireLib WireSock.listening (oneSocket.listenEndpoints .v4 (some web.1) 80) listening2
        (served.foldl (step wireLib wire) listening2) ∧
      Along (step wireLib wire) (Delivers wireLib) listening2 served :=
  listener_lawful wire_follows listening2_opened _
    ⟨fun _ _ _ => ⟨nofun, nofun⟩, fun _ _ _ => ⟨nofun, nofun⟩, fun _ _ _ => ⟨nofun, nofun⟩, trivial, trivial, trivial⟩

/-- A peer connects, sends its FIN, and is not accepted: its slot is lost. -/
theorem finished_lost : Follows wireLib WireSock.listening wire ∧
    Opened wireLib (oneSocket.listenEndpoints .v4 (some web.1) 80) listening2 ∧
    ¬ Along (step wireLib wire) (Delivers wireLib) listening2
      [.segment 0 (.syn web peer), .segment 0 .ack, .segment 0 .fin, .accept] := by
  refine ⟨wire_follows, listening2_opened, fun ⟨_, _, _, delivers, _⟩ => ?_⟩
  exact absurd (delivers rfl ⟨(0, 0), by decide +kernel, by decide +kernel⟩) (by decide +kernel)

end Poles

end Serving
end Wk.Fabric
