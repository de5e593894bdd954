/-
# Wk.Fabric.UdpForward -- the UDP sessions of a port forward

Each host client that sends to a forwarded port gets a socket of its own on the bridge's
stack, bound to a local port no other session holds, so that what comes back on it belongs to
that client.  Sessions expire when they have been idle, and their sockets are closed.

The bridge's stack is shared: the forward's TCP connections have sockets there too, and the
hub polls and reaps it.  Their steps come between the pump's in any order.

* `allocPort_spec`: the rotating counter finds a free port if there is one.
* `Forward.Sound`: the table, the ports in use and the sockets account for each other.
* `sessions_sound`: what holds of the sessions in every run.

Pole: `sessions_sound_served` (one client's datagram, and the reply).
-/
import Wk.Fabric.Listeners

namespace Wk.Fabric

open Wk.Library

set_option autoImplicit false

/-- The UDP side of the socket library: the port a socket is bound to, and its two queues. -/
structure UdpLib (S : Type) extends SocketLib S where
  udpPort : S → Nat
  sendSlice : S → Bytes → SocketAddress → Option S
  recv : S → Option (Bytes × S)

/-- The size of a UDP socket's send buffer. -/
def udpBuffer : Nat := 16 * 1280

/-- What the library documents: a fresh socket can be bound to a port and keeps it, and takes
a first datagram that fits its buffer, for an address and a port that are set. -/
structure UdpLib.Documented {S : Type} (lib : UdpLib S) : Prop where
  bind : ∀ port, port ≠ 0 → ∃ s, lib.bind lib.udp port = some s ∧ lib.udpPort s = port
  sent : ∀ s data dest s', lib.sendSlice s data dest = some s' → lib.udpPort s' = lib.udpPort s
  received : ∀ s data s', lib.recv s = some (data, s') → lib.udpPort s' = lib.udpPort s
  first : ∀ port s data (dest : SocketAddress), lib.bind lib.udp port = some s → data.length ≤ udpBuffer →
    dest.1.unspecified = false → dest.2 ≠ 0 → (lib.sendSlice s data dest).isSome = true

/-- The session of a client, with the generation of its socket. -/
structure Session where
  handle : Nat
  gen : Nat
  port : Nat
  last : Nat
  deriving DecidableEq, Repr

def Session.claim (s : Session) : Claim := (s.handle, s.gen)

/-- Drop a client's socket after this long without traffic, in seconds. -/
def udpIdle : Nat := 120

/-- The pump over the bridge's stack. -/
structure Forward (A S : Type) where
  bridge : SocketStack S
  /-- The port on the target. -/
  dstPort : Nat
  sessions : List (A × Session) := []
  /-- The local ports bound by a session. -/
  used : Finset Nat := ∅
  nextPort : Nat := 49152
  /-- The sockets of the forward's TCP connections. -/
  others : List Claim := []
  /-- What was sent back to clients. -/
  sentBack : List (A × Bytes) := []

/-- What happens to the pump and to the bridge's stack. -/
inductive ForwardEvent {S : Type} (A : Type) (lib : UdpLib S) where
  /-- A client's datagram, while the target has an address. -/
  | datagram (src : A) (data : Bytes) (dst : Ipv4) (now : Nat)
  /-- One `recv` on the socket of a client's session. -/
  | reply (src : A) (now : Nat)
  /-- Idle sessions expire. -/
  | expire (now : Nat)
  /-- A TCP connection of the forward adds its socket, uses it, closes it. -/
  | open' (sock : S)
  | use (c : Claim) (f : S → S)
  | close (c : Claim)
  /-- The hub polls, which binds no socket elsewhere, or reaps. -/
  | poll (f : Nat → S → S) (keeps : ∀ h s, lib.udpPort (f h s) = lib.udpPort s)
  | reap

namespace Forward

variable {A S : Type} [DecidableEq A] (lib : UdpLib S)

/-- Pick a free ephemeral port in so many tries, with the counter's next value. -/
def allocPort (used : Finset Nat) : Nat → Nat → Option Nat × Nat
  | 0, next => (none, next)
  | n + 1, next =>
    let p := next
    let next := if p = 65535 then 49152 else p + 1
    if p ∈ used then allocPort used n next else (some p, next)

/-- The session of a client. -/
def session (f : Forward A S) (src : A) : Option Session := (f.sessions.find? fun e => e.1 = src).map Prod.snd

/-- The session of a client was in use. -/
def touch (f : Forward A S) (src : A) (now : Nat) : Forward A S :=
  { f with sessions := f.sessions.map fun e => if e.1 = src then (e.1, { e.2 with last := now }) else e }

/-- A socket for a new client, added, tracked and bound to a port. -/
def bindFresh (st : SocketStack S) (port : Nat) : SocketStack S × Claim × Bool :=
  let (st, h) := st.add lib.udp
  let (st, gen) := st.track h
  let (st, ok) := st.attempt gen h fun s => lib.bind s port
  (st, (h, gen), ok)

/-- Host to fabric: what was read into the pump's buffer of 2048 octets. -/
def datagram (f : Forward A S) (src : A) (data : Bytes) (dst : Ipv4) (now : Nat) : Forward A S :=
  let send : S → Option S := fun s => lib.sendSlice s (data.take 2048) (.ipv4 dst, f.dstPort)
  match f.session src with
  | some sess => { f.touch src now with bridge := (f.bridge.attempt sess.gen sess.handle send).1 }
  | none =>
    match allocPort f.used 16384 f.nextPort with
    | (none, next) => { f with nextPort := next }
    | (some port, next) =>
      let (st, (h, gen), ok) := bindFresh lib f.bridge port
      if ok then
        { f with
          bridge := (st.attempt gen h send).1
          sessions := f.sessions ++ [(src, { handle := h, gen, port, last := now })]
          used := insert port f.used
          nextPort := next }
      else { f with bridge := st.beginClose gen h .udp, nextPort := next }

/-- Fabric to host: a reply on a client's socket goes back to it. -/
def reply (f : Forward A S) (src : A) (now : Nat) : Forward A S :=
  match f.session src with
  | none => f
  | some sess =>
    match (f.bridge.sock sess.handle).bind lib.recv with
    | none => { f with bridge := f.bridge.access sess.gen sess.handle id }
    | some (data, _) =>
      { f.touch src now with
        bridge := f.bridge.access sess.gen sess.handle fun s => ((lib.recv s).map Prod.snd).getD s
        sentBack := f.sentBack ++ [(src, data)] }

/-- A session ends. -/
def remove (f : Forward A S) (src : A) : Forward A S :=
  match f.session src with
  | none => f
  | some sess =>
    { f with
      sessions := f.sessions.filter fun e => e.1 ≠ src
      used := f.used.erase sess.port
      bridge := f.bridge.beginClose sess.gen sess.handle .udp }

def expire (f : Forward A S) (now : Nat) : Forward A S :=
  let expired := (f.sessions.filter fun e => udpIdle < now - e.2.last).map Prod.fst
  expired.foldl remove f

def step (f : Forward A S) : ForwardEvent A lib → Forward A S
  | .datagram src data dst now => f.datagram lib src data dst now
  | .reply src now => f.reply lib src now
  | .expire now => f.expire now
  | .open' sock =>
    let (st, h) := f.bridge.add sock
    let (st, gen) := st.track h
    { f with bridge := st, others := (h, gen) :: f.others }
  | .use c g => if c ∈ f.others then { f with bridge := f.bridge.access c.2 c.1 g } else f
  | .close c =>
    if c ∈ f.others then
      { f with bridge := f.bridge.beginClose c.2 c.1 .tcp, others := f.others.erase c }
    else f
  | .poll g _ => { f with bridge := f.bridge.poll g }
  | .reap => { f with bridge := f.bridge.reapClosing lib.toSocketLib }

/-- The forward starts on a stack of its own. -/
def start (ip : Ipv4) (ip6 : Ipv6) (dstPort : Nat) : Forward A S := { bridge := { ip, ip6 }, dstPort }

def ports (f : Forward A S) : List Nat := f.sessions.map fun e => e.2.port

/-- A reply that is read from a socket goes to the client of the one session that holds the
socket's port, and nothing else is sent to clients. -/
def Returns (f : Forward A S) : Prop :=
  (∀ e ∈ f.sessions, ∀ s data s', f.bridge.sock e.2.handle = some s → lib.recv s = some (data, s') →
    (∀ now, (f.step lib (.reply e.1 now)).sentBack = f.sentBack ++ [(e.1, data)]) ∧
      ∀ e' ∈ f.sessions, e'.2.port = lib.udpPort s → e'.1 = e.1) ∧
  ∀ event, (f.step lib event).sentBack = f.sentBack ∨ ∃ e ∈ f.sessions, ∃ now, event = .reply e.1 now

/-- A new client's datagram, while some port is free, is given to a socket of the client's
own, bound to a port that was free; and the socket takes it, if there is a port to send to. -/
def Hands (f : Forward A S) : Prop :=
  ∀ src data dst now, (∀ e ∈ f.sessions, e.1 ≠ src) → ¬ Finset.Icc 49152 65535 ⊆ f.used →
    ∃ (sess : Session) (s : S), (src, sess) ∈ (f.step lib (.datagram src data dst now)).sessions ∧
      sess.port ∉ f.used ∧ lib.bind lib.udp sess.port = some s ∧
      (f.step lib (.datagram src data dst now)).bridge.sock sess.handle =
        some ((lib.sendSlice s (data.take 2048) (.ipv4 dst, f.dstPort)).getD s) ∧
      ((IpAddress.ipv4 dst).unspecified = false → f.dstPort ≠ 0 →
        (lib.sendSlice s (data.take 2048) (.ipv4 dst, f.dstPort)).isSome = true)

/-! ## The rotating counter -/

/-- What the counter comes to after so many tries. -/
theorem allocPort_spec (used : Finset Nat) : ∀ (n next : Nat), 49152 ≤ next → next ≤ 65535 →
    (49152 ≤ (allocPort used n next).2 ∧ (allocPort used n next).2 ≤ 65535) ∧
      (∀ p, (allocPort used n next).1 = some p → p ∉ used ∧ 49152 ≤ p ∧ p ≤ 65535) ∧
      ((allocPort used n next).1 = none → ∀ i < n, 49152 + (next - 49152 + i) % 16384 ∈ used)
  | 0, next, low, high => ⟨⟨low, high⟩, nofun, fun _ _ => nofun⟩
  | n + 1, next, low, high => by
    have low' : 49152 ≤ if next = 65535 then 49152 else next + 1 := by split <;> omega
    have high' : (if next = 65535 then 49152 else next + 1) ≤ 65535 := by split <;> omega
    simp only [allocPort]
    split
    · next taken =>
        obtain ⟨range, found, full⟩ := allocPort_spec used n _ low' high'
        refine ⟨range, found, fun none' i small => ?_⟩
        cases i with
        | zero =>
          have here : 49152 + (next - 49152 + 0) % 16384 = next := by omega
          rwa [here]
        | succ i =>
          have there := full none' i (by omega)
          have same : (next - 49152 + (i + 1)) % 16384 =
              ((if next = 65535 then 49152 else next + 1) - 49152 + i) % 16384 := by
            split <;> omega
          rwa [same]
    · next free => exact ⟨⟨low', high'⟩, fun p same => Option.some.inj same ▸ ⟨free, low, high⟩, nofun⟩

/-- The counter finds a port unless all are in use. -/
theorem allocPort_full {used : Finset Nat} {next : Nat} (low : 49152 ≤ next) (high : next ≤ 65535)
    (none' : (allocPort used 16384 next).1 = none) : Finset.Icc 49152 65535 ⊆ used := by
  intro p within
  obtain ⟨from', upto⟩ := Finset.mem_Icc.1 within
  have here := (allocPort_spec used 16384 next low high).2.2 none' ((p + 16384 - next) % 16384) (Nat.mod_lt _ (by omega))
  have same : 49152 + (next - 49152 + (p + 16384 - next) % 16384) % 16384 = p := by omega
  rwa [same] at here

/-! ## What every event keeps -/

def claims (f : Forward A S) : List Claim := f.sessions.map fun e => e.2.claim

/-- Every session has a live socket of its own, bound to a port of its own, and the ports in
use are those. -/
structure Sound (lib : UdpLib S) (f : Forward A S) : Prop where
  owned : SocketStack.Owned f.bridge f.bridge (f.claims ++ f.others) []
  clients : (f.sessions.map Prod.fst).Nodup
  used : ∀ p, p ∈ f.used ↔ p ∈ f.ports
  ports : f.ports.Nodup
  range : ∀ p ∈ f.ports, 49152 ≤ p ∧ p ≤ 65535
  bound : ∀ e ∈ f.sessions, (f.bridge.sock e.2.handle).map lib.udpPort = some e.2.port
  next : 49152 ≤ f.nextPort ∧ f.nextPort ≤ 65535

variable {lib} {f : Forward A S} {src : A} {sess : Session}

theorem mem_of_session (here : f.session src = some sess) : (src, sess) ∈ f.sessions := by
  obtain ⟨e, found, rfl⟩ := Option.map_eq_some_iff.1 here
  have client : e.1 = src := by simpa using List.find?_some found
  have member := List.mem_of_find?_eq_some found
  rwa [← client]

theorem not_mem_of_session (new : f.session src = none) : src ∉ f.sessions.map Prod.fst := by
  have missing := List.find?_eq_none.1 (Option.map_eq_none_iff.1 new)
  rintro member
  obtain ⟨e, listed, client⟩ := List.mem_map.1 member
  exact missing e listed (by simpa using client)

/-- The table is the session of a client and those of the others. -/
theorem perm_session {l : List (A × Session)} (clients : (l.map Prod.fst).Nodup) (here : (src, sess) ∈ l) :
    l.Perm ((src, sess) :: l.filter fun e => e.1 ≠ src) := by
  induction l with
  | nil => cases here
  | cons e l ih =>
    obtain ⟨fresh, rest⟩ := List.nodup_cons.1 clients
    rcases List.mem_cons.1 here with rfl | later
    · have others : l.filter (fun e => e.1 ≠ src) = l :=
        List.filter_eq_self.2 fun e member => by
          simpa using fun same : e.1 = src => fresh (List.mem_map.2 ⟨e, member, same⟩)
      simp only [ne_eq, not_true_eq_false, decide_false, Bool.false_eq_true, not_false_eq_true, List.filter_cons_of_neg]
      rw [show l.filter (fun e => decide ¬ e.1 = src) = l from others]
    · have other : e.1 ≠ src := fun same => fresh (List.mem_map.2 ⟨_, later, same.symm⟩)
      rw [List.filter_cons_of_pos (by simpa using other)]
      exact ((ih rest later).cons e).trans (.swap ..)

theorem session_of_mem (clients : (f.sessions.map Prod.fst).Nodup) (here : (src, sess) ∈ f.sessions) :
    f.session src = some sess := by
  cases found : f.session src with
  | none => exact absurd (List.mem_map_of_mem here) (not_mem_of_session found)
  | some sess' =>
    have there := mem_of_session found
    have same := List.inj_on_of_nodup_map clients here there rfl
    rw [(Prod.mk.inj same).2]

/-! ### The sockets a step does not meet -/

/-- A use that binds the socket nowhere else leaves every socket's port. -/
theorem port_access (st : SocketStack S) (gen h : Nat) {g : S → S} (keeps : ∀ s, lib.udpPort (g s) = lib.udpPort s)
    (h' : Nat) : ((st.access gen h g).sock h').map lib.udpPort = (st.sock h').map lib.udpPort := by
  rw [SocketStack.sock_access]
  split
  · cases st.sock h' <;> simp [keeps]
  · rfl

omit [DecidableEq A] in
theorem Sound.live (sound : f.Sound lib) {e : A × Session} (here : e ∈ f.sessions) :
    f.bridge.live e.2.handle = some e.2.gen :=
  sound.owned.current e.2.claim (List.mem_append_left _ (List.mem_map_of_mem here))

omit [DecidableEq A] in
/-- The socket of a TCP connection is no session's. -/
theorem Sound.apart (sound : f.Sound lib) {e : A × Session} (here : e ∈ f.sessions) {c : Claim} (other : c ∈ f.others) :
    e.2.handle ≠ c.1 := by
  intro same
  have distinct := sound.owned.distinct
  rw [List.append_nil, List.map_append] at distinct
  have live := sound.owned.current c (List.mem_append_right _ other)
  rw [← same, sound.live here] at live
  exact (List.nodup_append.1 distinct).2.2 _ (List.mem_map_of_mem (List.mem_map_of_mem here)) _
    (List.mem_map_of_mem other) (Option.some.inj live)

theorem Sound.touch (sound : f.Sound lib) (src : A) (now : Nat) : (f.touch src now).Sound lib := by
  have same : ∀ {B : Type} (g : A × Session → B), (∀ e : A × Session, g (e.1, { e.2 with last := now }) = g e) →
      (f.touch src now).sessions.map g = f.sessions.map g := by
    intro B g blind
    simp only [Forward.touch, List.map_map]
    exact List.map_congr_left fun e _ => by
      simp only [Function.comp_apply]
      split
      · exact blind e
      · rfl
  have claims : (f.touch src now).claims = f.claims := same _ fun _ => rfl
  have ports : (f.touch src now).ports = f.ports := same _ fun _ => rfl
  refine ⟨?_, ?_, ?_, ?_, ?_, ?_, sound.next⟩
  · rw [claims]
    exact sound.owned
  · rw [same _ fun _ => rfl]
    exact sound.clients
  · rw [ports]
    exact sound.used
  · rw [ports]
    exact sound.ports
  · rw [ports]
    exact sound.range
  · intro e here
    obtain ⟨e', there, rfl⟩ := List.mem_map.1 here
    split <;> exact sound.bound e' there

omit [DecidableEq A] in
/-- A session's socket is used, and stays bound to its port. -/
theorem Sound.access (sound : f.Sound lib) {e : A × Session} (here : e ∈ f.sessions) {g : S → S}
    (keeps : ∀ s, lib.udpPort (g s) = lib.udpPort s) :
    ({ f with bridge := f.bridge.access e.2.gen e.2.handle g } : Forward A S).Sound lib where
  owned := (sound.owned.access (c := e.2.claim) (sound.live here) g).rebase
  clients := sound.clients
  used := sound.used
  ports := sound.ports
  range := sound.range
  bound e' there := (port_access _ _ _ keeps _).trans (sound.bound e' there)
  next := sound.next

theorem Sound.reply (doc : lib.Documented) (sound : f.Sound lib) (src : A) (now : Nat) :
    (f.reply lib src now).Sound lib := by
  simp only [Forward.reply]
  split
  · exact sound
  · next sess session =>
      have here := mem_of_session session
      split
      · exact sound.access here fun _ => rfl
      · refine Sound.touch (f := { f with bridge := _, sentBack := _ }) ?_ src now
        have read := sound.access here (g := fun s => ((lib.recv s).map Prod.snd).getD s) fun s => by
          cases got : lib.recv s with
          | none => rfl
          | some r => exact doc.received s r.1 r.2 got
        exact ⟨read.owned, read.clients, read.used, read.ports, read.range, read.bound, read.next⟩

/-- A session ends: its port is free again, and its socket is closed. -/
theorem Sound.remove (sound : f.Sound lib) (src : A) : (f.remove src).Sound lib := by
  simp only [Forward.remove]
  split
  · exact sound
  · next sess session =>
      have perm := perm_session sound.clients (mem_of_session session)
      have ports : f.ports.Perm (sess.port :: (f.sessions.filter fun e => e.1 ≠ src).map fun e => e.2.port) :=
        perm.map _
      have distinct := List.nodup_cons.1 (ports.nodup_iff.1 sound.ports)
      refine ⟨?_, sound.clients.sublist (List.filter_sublist.map _), fun p => ?_, distinct.2,
        fun p listed => sound.range p (ports.mem_iff.2 (List.mem_cons_of_mem _ listed)), fun e here => ?_, sound.next⟩
      · have claims := (perm.map fun e : A × Session => e.2.claim).append_right f.others
        exact (((sound.owned.congr claims .rfl).close .udp).rebase)
      · rw [Finset.mem_erase, sound.used, ports.mem_iff, List.mem_cons]
        constructor
        · rintro ⟨other, rfl | listed⟩
          · exact absurd rfl other
          · exact listed
        · intro listed
          exact ⟨fun same => distinct.1 (same ▸ listed), .inr listed⟩
      · rw [SocketStack.sock_beginClose]
        exact sound.bound e (List.mem_filter.1 here).1

theorem Sound.expire (sound : f.Sound lib) (now : Nat) : (f.expire now).Sound lib := by
  simp only [Forward.expire]
  generalize (f.sessions.filter fun e => udpIdle < now - e.2.last).map Prod.fst = expired
  induction expired generalizing f with
  | nil => exact sound
  | cons src expired ih => exact ih (sound.remove src)

omit [DecidableEq A] in
/-- The slot a socket is added to is no session's. -/
theorem Sound.freeSlot (sound : f.Sound lib) {e : A × Session} (here : e ∈ f.sessions) :
    e.2.handle ≠ f.bridge.freeSlot := by
  intro free
  have live := sound.live here
  rw [free, sound.owned.sound.live_freeSlot] at live
  cases live

/-- A fresh socket is bound, and nothing else changes. -/
theorem bindFresh_spec (st : SocketStack S) {port : Nat} {s : S} (bound : lib.bind lib.udp port = some s) :
    (bindFresh lib st port).2.2 = true ∧ (bindFresh lib st port).2.1.1 = st.freeSlot ∧
      ∀ h, (bindFresh lib st port).1.sock h = if h = st.freeSlot then some s else st.sock h := by
  have added : ∀ h, ((st.add lib.udp).1.track (st.add lib.udp).2).1.sock h =
      if h = st.freeSlot then some lib.udp else st.sock h := SocketStack.sock_add st lib.udp
  refine ⟨?_, rfl, fun h => ?_⟩
  · show ((((st.add lib.udp).1.track (st.add lib.udp).2).1.sock st.freeSlot).bind _).isSome = true
    rw [added, if_pos rfl]
    simp [bound]
  · show ((((st.add lib.udp).1.track (st.add lib.udp).2).1.access st.nextGen st.freeSlot
      fun s => (lib.bind s port).getD s).sock h) = _
    rw [SocketStack.sock_access, added]
    split <;> simp [bound]

theorem bindFresh_owned {st : SocketStack S} {held : List Claim} (owned : SocketStack.Owned st st held []) (port : Nat) :
    SocketStack.Owned st (bindFresh lib st port).1 ((bindFresh lib st port).2.1 :: held) [] :=
  (owned.addTracked lib.udp).attempt fun s => lib.bind s port

/-- A new client's datagram while a port is free: a socket is bound to one that no session
has, and the datagram is given to it. -/
theorem Sound.opens (doc : lib.Documented) (sound : f.Sound lib) (new : f.session src = none) {port next : Nat}
    (alloc : allocPort f.used 16384 f.nextPort = (some port, next)) (data : Bytes) (dst : Ipv4) (now : Nat) :
    (f.datagram lib src data dst now).Sound lib ∧
      ∃ (sess : Session) (s : S), (src, sess) ∈ (f.datagram lib src data dst now).sessions ∧ sess.port ∉ f.used ∧
        lib.bind lib.udp sess.port = some s ∧ (f.datagram lib src data dst now).bridge.sock sess.handle =
          some ((lib.sendSlice s (data.take 2048) (.ipv4 dst, f.dstPort)).getD s) := by
  have tried := allocPort_spec f.used 16384 f.nextPort sound.next.1 sound.next.2
  rw [alloc] at tried
  obtain ⟨within, found, -⟩ := tried
  obtain ⟨free, low, high⟩ := found port rfl
  obtain ⟨s, bound, at_port⟩ := doc.bind port (by omega)
  obtain ⟨ok, slot, socks⟩ := bindFresh_spec f.bridge bound
  have owned : SocketStack.Owned _ (bindFresh lib f.bridge port).1 _ [] := bindFresh_owned sound.owned port
  generalize fresh : bindFresh lib f.bridge port = opened at ok slot socks owned
  obtain ⟨st, ⟨h, gen⟩, ok'⟩ := opened
  obtain rfl : ok' = true := ok
  obtain rfl : h = f.bridge.freeSlot := slot
  let send : S → Option S := fun s => lib.sendSlice s (data.take 2048) (.ipv4 dst, f.dstPort)
  let sess : Session := { handle := f.bridge.freeSlot, gen, port, last := now }
  have after : f.datagram lib src data dst now =
      { f with
        bridge := st.access gen f.bridge.freeSlot fun s => (send s).getD s
        sessions := f.sessions ++ [(src, sess)]
        used := insert port f.used
        nextPort := next } := by
    simp [Forward.datagram, new, alloc, fresh, send, sess, SocketStack.attempt]
  have keeps : ∀ s, lib.udpPort ((send s).getD s) = lib.udpPort s := fun s => by
    cases got : send s with
    | none => rfl
    | some s' => exact doc.sent s _ _ s' got
  have at_slot : (st.access gen f.bridge.freeSlot fun s => (send s).getD s).sock f.bridge.freeSlot =
      some ((send s).getD s) := by
    rw [SocketStack.sock_access, if_pos rfl, socks, if_pos rfl, Option.map_some]
  rw [after]
  refine ⟨⟨?_, ?_, fun p => ?_, ?_, fun p listed => ?_, fun e here => ?_, within⟩,
    sess, s, by simp, free, bound, at_slot⟩
  · have claims : (sess.claim :: (f.claims ++ f.others)).Perm
        (((f.sessions ++ [(src, sess)]).map fun e => e.2.claim) ++ f.others) := by
      simpa [Forward.claims] using List.perm_middle.symm
    exact ((owned.use fun s => (send s).getD s).congr claims .rfl).rebase
  · rw [List.map_append]
    exact sound.clients.append (List.nodup_singleton _)
      (List.disjoint_singleton.2 (not_mem_of_session new))
  · simp [sound.used, Forward.ports, sess, or_comm]
  · have listed : port ∉ f.ports := fun listed => free ((sound.used port).2 listed)
    simpa [Forward.ports, sess] using sound.ports.append (List.nodup_singleton port) (List.disjoint_singleton.2 listed)
  · simp only [Forward.ports, List.map_append, List.mem_append, List.map_cons, List.map_nil, List.mem_singleton] at listed
    rcases listed with old | rfl
    · exact sound.range p old
    · exact ⟨low, high⟩
  · rw [port_access _ _ _ keeps, socks]
    rcases List.mem_append.1 here with old | new'
    · rw [if_neg (sound.freeSlot old)]
      exact sound.bound e old
    · rw [List.mem_singleton.1 new', if_pos rfl, Option.map_some, at_port]

theorem Sound.datagram (doc : lib.Documented) (sound : f.Sound lib) (src : A) (data : Bytes) (dst : Ipv4) (now : Nat) :
    (f.datagram lib src data dst now).Sound lib := by
  cases session : f.session src with
  | some sess =>
    have sent := sound.access (mem_of_session session)
      (g := fun s => (lib.sendSlice s (data.take 2048) (.ipv4 dst, f.dstPort)).getD s) fun s => by
        cases got : lib.sendSlice s (data.take 2048) (.ipv4 dst, f.dstPort) with
        | none => rfl
        | some s' => exact doc.sent s _ _ s' got
    simp only [Forward.datagram, session]
    exact sent.touch src now
  | none =>
    cases alloc : allocPort f.used 16384 f.nextPort with
    | mk port next =>
      have within := (allocPort_spec f.used 16384 f.nextPort sound.next.1 sound.next.2).1
      cases port with
      | some port => exact (sound.opens doc session alloc data dst now).1
      | none =>
        simp only [Forward.datagram, session, alloc] at within ⊢
        exact ⟨sound.owned, sound.clients, sound.used, sound.ports, sound.range, sound.bound, within⟩

theorem Sound.step (doc : lib.Documented) (sound : f.Sound lib) (e : ForwardEvent A lib) : (f.step lib e).Sound lib := by
  cases e with
  | datagram src data dst now => exact sound.datagram doc src data dst now
  | reply src now => exact sound.reply doc src now
  | expire now => exact sound.expire now
  | open' sock =>
    refine ⟨?_, sound.clients, sound.used, sound.ports, sound.range, fun e here => ?_, sound.next⟩
    · exact ((sound.owned.addTracked sock).congr List.perm_middle.symm .rfl).rebase
    · show ((f.bridge.add sock).1.sock e.2.handle).map lib.udpPort = _
      rw [SocketStack.sock_add, if_neg (sound.freeSlot here)]
      exact sound.bound e here
  | use c g =>
    simp only [Forward.step]
    split
    · next other =>
        have live := sound.owned.current c (List.mem_append_right _ other)
        refine ⟨(sound.owned.access live g).rebase, sound.clients, sound.used, sound.ports, sound.range,
          fun e here => ?_, sound.next⟩
        rw [SocketStack.sock_access, if_neg (sound.apart here other)]
        exact sound.bound e here
    · exact sound
  | close c =>
    simp only [Forward.step]
    split
    · next other =>
        have claims : (f.claims ++ f.others).Perm (c :: (f.claims ++ f.others.erase c)) :=
          ((List.perm_cons_erase other).append_left _).trans List.perm_middle
        refine ⟨((sound.owned.congr claims .rfl).close .tcp).rebase, sound.clients, sound.used, sound.ports,
          sound.range, fun e here => ?_, sound.next⟩
        rw [SocketStack.sock_beginClose]
        exact sound.bound e here
    · exact sound
  | poll g keeps =>
    refine ⟨(sound.owned.poll g).rebase, sound.clients, sound.used, sound.ports, sound.range, fun e here => ?_,
      sound.next⟩
    have polled : (f.bridge.poll g).sock e.2.handle = (f.bridge.sock e.2.handle).map (g e.2.handle) := by
      simp only [SocketStack.sock, SocketStack.poll]
      cases f.bridge.slots e.2.handle <;> rfl
    show ((f.bridge.poll g).sock e.2.handle).map lib.udpPort = _
    rw [polled, Option.map_map, ← sound.bound e here]
    cases f.bridge.sock e.2.handle <;> simp [keeps]
  | reap =>
    refine ⟨sound.owned.reapClosing lib.toSocketLib, sound.clients, sound.used, sound.ports, sound.range,
      fun e here => ?_, sound.next⟩
    have elsewhere : ∀ c ∈ f.bridge.closing, c.handle ≠ e.2.handle := fun c closing same => by
      have dead := (sound.owned.sound.closing c closing).2
      rw [same, sound.live here] at dead
      cases dead
    have kept : (f.bridge.reapClosing lib.toSocketLib).sock e.2.handle = f.bridge.sock e.2.handle :=
      SocketStack.sock_reapAll lib.toSocketLib elsewhere
    show ((f.bridge.reapClosing lib.toSocketLib).sock e.2.handle).map lib.udpPort = _
    rw [kept]
    exact sound.bound e here

theorem Sound.run (doc : lib.Documented) (sound : f.Sound lib) (events : List (ForwardEvent A lib)) :
    (events.foldl (Forward.step lib) f).Sound lib := by
  induction events generalizing f with
  | nil => exact sound
  | cons e events ih => exact ih (sound.step doc e)

omit [DecidableEq A] in
theorem sound_start (ip : Ipv4) (ip6 : Ipv6) (dstPort : Nat) : (start ip ip6 dstPort : Forward A S).Sound lib where
  owned := ⟨.start ip ip6, nofun, List.nodup_nil, nofun, nofun, fun _ _ draining => draining⟩
  clients := List.nodup_nil
  used := by simp [start, Forward.ports]
  ports := List.nodup_nil
  range := nofun
  bound := nofun
  next := by
    show 49152 ≤ 49152 ∧ 49152 ≤ 65535
    omega

/-! ## What the clients get -/

theorem sentBack_remove (f : Forward A S) (src : A) : (f.remove src).sentBack = f.sentBack := by
  simp only [Forward.remove]
  split <;> rfl

theorem sentBack_expire (f : Forward A S) (now : Nat) : (f.expire now).sentBack = f.sentBack := by
  simp only [Forward.expire]
  generalize (f.sessions.filter fun e => udpIdle < now - e.2.last).map Prod.fst = expired
  induction expired generalizing f with
  | nil => rfl
  | cons src expired ih => exact (ih _).trans (sentBack_remove f src)

theorem sentBack_datagram (f : Forward A S) (src : A) (data : Bytes) (dst : Ipv4) (now : Nat) :
    (f.datagram lib src data dst now).sentBack = f.sentBack := by
  simp only [Forward.datagram]
  split
  · rfl
  · split
    · rfl
    · split <;> rfl

theorem Sound.returns (sound : f.Sound lib) : f.Returns lib := by
  refine ⟨fun e here s data s' sock got => ⟨fun now => ?_, fun e' there port => ?_⟩, fun event => ?_⟩
  · have session : f.session e.1 = some e.2 := session_of_mem sound.clients here
    simp [Forward.step, Forward.reply, session, sock, got]
  · have at_port := sound.bound e here
    rw [sock, Option.map_some, Option.some.injEq] at at_port
    rw [List.inj_on_of_nodup_map sound.ports there here (port.trans at_port)]
  · cases event with
    | reply src now =>
      cases session : f.session src with
      | none => simp [Forward.step, Forward.reply, session]
      | some sess => exact .inr ⟨_, mem_of_session session, now, rfl⟩
    | datagram src data dst now => exact .inl (sentBack_datagram f src data dst now)
    | expire now => exact .inl (sentBack_expire f now)
    | use c g => exact .inl (by simp only [Forward.step]; split <;> rfl)
    | close c => exact .inl (by simp only [Forward.step]; split <;> rfl)
    | open' sock => exact .inl rfl
    | poll g keeps => exact .inl rfl
    | reap => exact .inl rfl

theorem Sound.hands (doc : lib.Documented) (sound : f.Sound lib) : f.Hands lib := by
  intro src data dst now new free
  have session : f.session src = none := by
    by_contra known
    obtain ⟨sess, session⟩ := Option.ne_none_iff_exists'.1 known
    exact new _ (mem_of_session session) rfl
  cases alloc : allocPort f.used 16384 f.nextPort with
  | mk port next =>
    cases port with
    | none => exact absurd (allocPort_full sound.next.1 sound.next.2 (congrArg Prod.fst alloc)) free
    | some port =>
      obtain ⟨-, sess, s, member, unused, bound, given⟩ := sound.opens doc session alloc data dst now
      refine ⟨sess, s, member, unused, bound, given, fun address at_port => ?_⟩
      have fits : (data.take 2048).length ≤ udpBuffer := by
        simp only [List.length_take, udpBuffer]
        omega
      exact doc.first _ s _ _ bound fits address at_port

end Forward

/-- In every run of the pump on a bridge, with the hub and the forward's TCP connections: the
ports in use are those of the sessions, pairwise distinct and ephemeral; each session's
socket is live and bound to its port; replies go to the client whose session holds the port;
and a new client's datagram goes to a socket of its own unless every port is in use. -/
theorem sessions_sound {A S : Type} [DecidableEq A] {lib : UdpLib S} (doc : lib.Documented) (ip : Ipv4) (ip6 : Ipv6)
    (dstPort : Nat) (events : List (ForwardEvent A lib)) :
    let f := events.foldl (Forward.step lib) (Forward.start ip ip6 dstPort)
    (∀ p, p ∈ f.used ↔ p ∈ f.ports) ∧ f.ports.Nodup ∧ (∀ p ∈ f.ports, 49152 ≤ p ∧ p ≤ 65535) ∧
      (∀ e ∈ f.sessions, f.bridge.live e.2.handle = some e.2.gen ∧
        (f.bridge.sock e.2.handle).map lib.udpPort = some e.2.port) ∧
      f.Returns lib ∧ f.Hands lib := by
  intro f
  have sound : f.Sound lib := (Forward.sound_start ip ip6 dstPort).run doc events
  exact ⟨sound.used, sound.ports, sound.range, fun e here => ⟨sound.live here, sound.bound e here⟩,
    sound.returns, sound.hands doc⟩

/-! ## Poles -/

section Poles

/-- A UDP socket: its port and its queues. -/
structure DatagramSock where
  port : Nat := 0
  inbox : List Bytes := []
  outbox : List (Bytes × SocketAddress) := []

/-- A socket library with the UDP sockets alone. -/
def datagramLib : UdpLib DatagramSock where
  tcp := {}
  udp := {}
  state _ := .closed
  listen _ _ := none
  connect _ _ _ := none
  bind s port := if s.port ≠ 0 || port = 0 then none else some { s with port }
  close s := s
  abort s := s
  localEndpoint _ := none
  remoteEndpoint _ := none
  sendQueue s := s.outbox.length
  canRecv s := !s.inbox.isEmpty
  mayRecv _ := true
  canSend s := s.outbox.length < 16
  maySend _ := true
  udpPort s := s.port
  sendSlice s data dest :=
    if s.port = 0 || dest.1.unspecified || dest.2 = 0 || udpBuffer < (s.outbox.map (·.1.length)).sum + data.length then none
    else some { s with outbox := s.outbox ++ [(data, dest)] }
  recv s :=
    match s.inbox with
    | [] => none
    | data :: inbox => some (data, { s with inbox })

theorem datagramLib_documented : datagramLib.Documented where
  bind port set := ⟨{ port }, by simp [datagramLib, set], rfl⟩
  sent s data dest s' given := by
    simp only [datagramLib] at given
    split at given
    · cases given
    · exact Option.some.inj given ▸ rfl
  received s data s' got := by
    simp only [datagramLib] at got
    split at got
    · cases got
    · cases got
      rfl
  first port s data dest bound fits address set := by
    simp only [datagramLib] at bound
    split at bound
    · cases bound
    · next unset =>
        cases bound
        simp only [Bool.or_eq_true, decide_eq_true_eq, not_or] at unset
        have fits' : ¬ udpBuffer < data.length := Nat.not_lt.2 fits
        simp [datagramLib, unset.2, address, set, fits']

/-- Client 7 sends `hi` to port 53 of the target, and `yo` comes back on its socket. -/
def chat : List (ForwardEvent Nat datagramLib) :=
  [.datagram 7 [104, 105] NetNode.node 0, .poll (fun _ s => { s with inbox := [[121, 111]], outbox := [] }) fun _ _ => rfl]

theorem sessions_sound_served :
    ((chat.foldl (Forward.step datagramLib) (Forward.start NetNode.node Ipv6.localhost 53)).step datagramLib
      (.reply 7 1)).sentBack = [(7, [121, 111])] := by
  obtain ⟨-, -, -, -, returns, -⟩ := sessions_sound datagramLib_documented NetNode.node Ipv6.localhost 53 chat
  exact (returns.1 (7, { handle := 0, gen := 0, port := 49152, last := 0 }) (List.mem_singleton_self _)
    { port := 49152, inbox := [[121, 111]] } [121, 111] { port := 49152 } rfl rfl).1 1

end Poles

end Wk.Fabric
