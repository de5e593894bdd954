/-
# Wk.Fabric.HostMulticast -- the bridge to the host's multicast groups

The bridge keeps one receive socket for each group it has joined, a group being an address
and a port.  The sockets are bound to the wildcard address, so each of them receives every
datagram that reaches the host on its port, and what is read from a socket is put into the
trunk under the group of that socket.

The pump's two loops are one order of the events here.  What reaches the host is numbered,
and each frame keeps the number of its datagram.

* `Bridge.Sound`: what waits in the sockets, what was read and what was injected account
  for each other.
* `groups_served`: a datagram for a joined group gives one frame for it, if it is small
  enough and not from the port the bridge itself sends from; on other ports there is none.

Poles: `groups_mixed` (an oversized datagram, a borrowed port, two groups on one port),
`served_group`.
-/
import Wk.Fabric.Datagrams
import Wk.Library.Run

namespace Wk.Fabric

open Wk.Library

set_option autoImplicit false

/-- A group the bridge carries: the address and the port it was seen on. -/
abbrev Group := Ipv4 × UInt16

/-- A group address, `224.0.0.0/4`. -/
def isMcast4 (a : Ipv4) : Bool := a.o0 &&& 0xf0 = 0xe0

/-- A datagram that reaches the host, over IPv4; `own` says the bridge's egress socket sent
it. -/
structure HostDatagram where
  src : Ipv4
  sport : UInt16
  dst : Ipv4
  dport : UInt16
  payload : Bytes
  own : Bool
  deriving DecidableEq, Repr

/-- Where it was sent. -/
def HostDatagram.group (d : HostDatagram) : Group := (d.dst, d.dport)

/-- A datagram that reached the host, and the groups that were joined then. -/
structure Heard where
  datagram : HostDatagram
  joined : List Group
  deriving DecidableEq, Repr

/-- The pump with its sockets. -/
structure Bridge where
  /-- The port of the egress socket. -/
  egressPort : UInt16
  /-- The groups that have a receive socket. -/
  rx : List Group
  /-- What waits in a receive socket. -/
  waiting : Group → List Nat := fun _ => []
  heard : List Heard := []
  /-- The sockets each datagram has been read from. -/
  read : Nat → List Group := fun _ => []
  /-- The frames put into the trunk, each with the number of its datagram. -/
  injected : List (Nat × Frame) := []
  /-- What the egress socket has sent. -/
  sent : List (Group × Bytes) := []

/-- What the pump does, and what reaches its sockets. -/
inductive BridgeEvent where
  /-- A frame of the trunk's; `bound` is what `bind_group` comes to, if it is called. -/
  | fabric (frame : Frame) (bound : Bool)
  /-- A datagram reaches the host, by unicast or for a group that some socket joined. -/
  | reach (d : HostDatagram)
  /-- One `recv_from` on the socket of a group. -/
  | receive (g : Group)

namespace Bridge

variable (lib : WireLib)

/-- The bridge with the groups it is given. -/
def start (egressPort : UInt16) (groups : List Group) : Bridge := { egressPort, rx := groups.dedup }

def join (b : Bridge) (g : Group) (bound : Bool) : Bridge :=
  if g ∈ b.rx then b else if bound then { b with rx := b.rx ++ [g] } else b

/-- Fabric to host. -/
def fabric (b : Bridge) (frame : Frame) (bound : Bool) : Bridge :=
  match parseUdp4 lib frame with
  | some (some dg) =>
    if !isMcast4 dg.dst then b
    else
      let b := b.join (dg.dst, dg.dport) bound
      { b with sent := b.sent ++ [((dg.dst, dg.dport), dg.payload)] }
  | _ => b

/-- The frame for a datagram read from the socket of a group. -/
def frameFor (b : Bridge) (g : Group) (d : HostDatagram) : Option Frame :=
  if d.sport = b.egressPort then none else buildUdp4 lib d.src d.sport g.1 g.2 d.payload

/-- Host to fabric. -/
def receive (b : Bridge) (g : Group) : Bridge :=
  match b.waiting g with
  | [] => b
  | n :: rest =>
    let frame := b.heard[n]?.bind fun h => b.frameFor lib g h.datagram
    { b with
      waiting := Function.update b.waiting g rest
      read := Function.update b.read n (b.read n ++ [g])
      injected := b.injected ++ (frame.map fun f => (n, f)).toList }

/-- Every socket on its port receives a datagram. -/
def reach (b : Bridge) (d : HostDatagram) : Bridge :=
  { b with
    waiting := fun g => if g ∈ b.rx ∧ g.2 = d.dport then b.waiting g ++ [b.heard.length] else b.waiting g
    heard := b.heard ++ [{ datagram := d, joined := b.rx }] }

def step (b : Bridge) : BridgeEvent → Bridge
  | .fabric frame bound => b.fabric lib frame bound
  | .reach d => b.reach d
  | .receive g => b.receive lib g

/-- Nothing waits in a socket. -/
def Drained (b : Bridge) : Prop := ∀ g, b.waiting g = []

/-- The frames injected for a datagram. -/
def framesOf (b : Bridge) (n : Nat) : List Frame := (b.injected.filter fun r => r.1 = n).map Prod.snd

/-- Groups are kept apart: of a datagram that others sent to a joined group one frame is
injected, for that group, and of any other none. -/
def KeepsApart (b : Bridge) : Prop :=
  ∀ n h, b.heard[n]? = some h →
    if h.datagram.group ∈ h.joined ∧ h.datagram.own = false then
      ∃ f, buildUdp4 lib h.datagram.src h.datagram.sport h.datagram.dst h.datagram.dport h.datagram.payload = some f ∧
        b.framesOf n = [f]
    else b.framesOf n = []

/-! ## What every event keeps -/

/-- Each datagram waits in, or was read from, each socket on its port once; and what was
read was injected under the socket's group. -/
structure Sound (b : Bridge) : Prop where
  known : ∀ g, ∀ n ∈ b.waiting g, n < b.heard.length
  unread : ∀ n, b.heard.length ≤ n → b.read n = []
  once : ∀ n h, b.heard[n]? = some h → ∀ g,
    (b.waiting g).count n + (b.read n).count g = if g ∈ h.joined ∧ g.2 = h.datagram.dport then 1 else 0
  frames : ∀ n h, b.heard[n]? = some h → b.framesOf n = (b.read n).filterMap fun g => b.frameFor lib g h.datagram
  none : ∀ n, b.heard.length ≤ n → b.framesOf n = []

variable {lib} {b : Bridge}

theorem Sound.start (egressPort : UInt16) (groups : List Group) : (start egressPort groups).Sound lib :=
  ⟨nofun, fun _ _ => rfl, nofun, nofun, fun _ _ => rfl⟩

/-- The fabric side touches neither the sockets' queues nor the trunk. -/
theorem Sound.fabric (sound : b.Sound lib) (frame : Frame) (bound : Bool) : (b.fabric lib frame bound).Sound lib := by
  have join : ∀ g, (b.join g bound).Sound lib := by
    intro g
    unfold Bridge.join
    split
    · exact sound
    · split
      · exact ⟨sound.known, sound.unread, sound.once, sound.frames, sound.none⟩
      · exact sound
  unfold Bridge.fabric
  split
  · next dg _ =>
      split
      · exact sound
      · have joined := join (dg.dst, dg.dport)
        exact ⟨joined.known, joined.unread, joined.once, joined.frames, joined.none⟩
  · exact sound

theorem Sound.reach (sound : b.Sound lib) (d : HostDatagram) : (b.reach d).Sound lib := by
  have fresh : ∀ g, (b.waiting g).count b.heard.length = 0 := fun g =>
    List.count_eq_zero.2 fun waits => Nat.lt_irrefl _ (sound.known g _ waits)
  have waiting : ∀ g n, n ≠ b.heard.length → ((b.reach d).waiting g).count n = (b.waiting g).count n := by
    intro g n old
    simp only [Bridge.reach]
    split
    · simp [List.count_append, Ne.symm old]
    · rfl
  have heard : ∀ n h, (b.reach d).heard[n]? = some h →
      b.heard[n]? = some h ∨ n = b.heard.length ∧ h = { datagram := d, joined := b.rx } := by
    intro n h here
    simp only [Bridge.reach, List.getElem?_append] at here
    split at here
    · exact .inl here
    · next past =>
        obtain ⟨last, same⟩ := List.getElem?_eq_some_iff.1 here
        have last' : n - b.heard.length = 0 := by simpa using last
        exact .inr ⟨by omega, by simpa [last'] using same.symm⟩
  refine ⟨fun g n waits => ?_, fun n past => ?_, fun n h here g => ?_, fun n h here => ?_, fun n past => ?_⟩
  · have longer : (b.reach d).heard.length = b.heard.length + 1 := by simp [Bridge.reach]
    rw [longer]
    by_cases last : n = b.heard.length
    · omega
    · have old := sound.known g n (List.count_pos_iff.1 (waiting g n last ▸ List.count_pos_iff.2 waits))
      omega
  · exact sound.unread n (by simp [Bridge.reach] at past; omega)
  · rcases heard n h here with old | ⟨rfl, rfl⟩
    · have other : n ≠ b.heard.length := (List.getElem?_eq_some_iff.1 old).1.ne
      rw [waiting g n other]
      exact sound.once n h old g
    · show ((b.reach d).waiting g).count b.heard.length + (b.read b.heard.length).count g = _
      simp only [sound.unread _ le_rfl, List.count_nil, Nat.add_zero, Bridge.reach]
      split
      · simp [List.count_append, fresh g]
      · exact fresh g
  · rcases heard n h here with old | ⟨rfl, -⟩
    · exact sound.frames n h old
    · have unread : (b.reach d).read b.heard.length = [] := sound.unread _ le_rfl
      rw [unread]
      exact sound.none _ le_rfl
  · exact sound.none n (by simp [Bridge.reach] at past; omega)

theorem framesOf_append (b : Bridge) (new : List (Nat × Frame)) (n : Nat) :
    ({ b with injected := b.injected ++ new } : Bridge).framesOf n =
      b.framesOf n ++ (new.filter fun r => r.1 = n).map Prod.snd := by
  simp [framesOf]

theorem Sound.receive (sound : b.Sound lib) (g : Group) : (b.receive lib g).Sound lib := by
  unfold Bridge.receive
  split
  · exact sound
  · next n rest waits =>
      have here : n < b.heard.length := sound.known g n (by simp [waits])
      obtain ⟨h, at_n⟩ : ∃ h, b.heard[n]? = some h := ⟨_, List.getElem?_eq_getElem here⟩
      refine ⟨fun g' m waits' => ?_, fun m past => ?_, fun m h' at_m g' => ?_, fun m h' at_m => ?_, fun m past => ?_⟩
      · by_cases same : g' = g
        · subst same
          exact sound.known g' m (by rw [waits]; exact List.mem_cons_of_mem _ (by simpa using waits'))
        · exact sound.known g' m (by simpa [same] using waits')
      · have other : m ≠ n := by dsimp only at past; omega
        simpa [Function.update_of_ne other] using sound.unread m past
      · have was := sound.once m h' at_m g'
        by_cases socket : g' = g <;> by_cases number : m = n
        · subst socket number
          simp only [waits, List.count_cons_self] at was
          simp only [Function.update_self, List.count_append, List.count_singleton_self]
          omega
        · subst socket
          simp only [waits, List.count_cons_of_ne (Ne.symm number)] at was
          simpa only [Function.update_self, Function.update_of_ne number] using was
        · subst number
          simpa [Function.update_of_ne socket, List.count_append, List.count_singleton, Ne.symm socket] using was
        · simpa only [Function.update_of_ne socket, Function.update_of_ne number] using was
      · refine (framesOf_append b _ m).trans ?_
        show _ = (Function.update b.read n (b.read n ++ [g]) m).filterMap fun g => b.frameFor lib g h'.datagram
        rw [sound.frames m h' at_m]
        by_cases number : m = n
        · subst number
          rw [at_m, Option.bind_some, Function.update_self, List.filterMap_append]
          cases built : b.frameFor lib g h'.datagram <;> simp [built]
        · have none' : (((b.heard[n]?.bind fun h => b.frameFor lib g h.datagram).map fun f => (n, f)).toList.filter
              fun r => r.1 = m) = [] := by
            cases b.heard[n]?.bind fun h => b.frameFor lib g h.datagram <;> simp [Ne.symm number]
          rw [none', Function.update_of_ne number, List.map_nil, List.append_nil]
      · have other : m ≠ n := by dsimp only at past; omega
        have none' : (((b.heard[n]?.bind fun h => b.frameFor lib g h.datagram).map fun f => (n, f)).toList.filter
            fun r => r.1 = m) = [] := by
          cases b.heard[n]?.bind fun h => b.frameFor lib g h.datagram <;> simp [Ne.symm other]
        refine (framesOf_append b _ m).trans ?_
        rw [none', sound.none m past]
        rfl

theorem Sound.step (sound : b.Sound lib) (e : BridgeEvent) : (b.step lib e).Sound lib := by
  cases e with
  | fabric frame bound => exact sound.fabric frame bound
  | reach d => exact sound.reach d
  | receive g => exact sound.receive g

theorem Sound.run (sound : b.Sound lib) (events : List BridgeEvent) : (events.foldl (Bridge.step lib) b).Sound lib := by
  induction events generalizing b with
  | nil => exact sound
  | cons e events ih => exact ih (sound.step e)

@[simp] theorem receive_egressPort (g : Group) : (b.receive lib g).egressPort = b.egressPort := by
  simp only [Bridge.receive]
  split <;> rfl

@[simp] theorem fabric_egressPort (frame : Frame) (bound : Bool) :
    (b.fabric lib frame bound).egressPort = b.egressPort := by
  have join : ∀ g, (b.join g bound).egressPort = b.egressPort := fun g => by
    simp only [Bridge.join]
    split
    · rfl
    · split <;> rfl
  simp only [Bridge.fabric]
  split
  · split
    · rfl
    · exact join _
  · rfl

theorem run_egressPort (events : List BridgeEvent) (b : Bridge) :
    (events.foldl (Bridge.step lib) b).egressPort = b.egressPort := by
  induction events generalizing b with
  | nil => rfl
  | cons e events ih => exact (ih _).trans (by cases e <;> simp [Bridge.step, Bridge.reach])

/-! ## One frame for the group -/

/-- The group a frame is addressed to. -/
def groupOf (lib : WireLib) (f : Frame) : Option Group :=
  match parseUdp4 lib f with
  | some (some dg) => some (dg.dst, dg.dport)
  | _ => none

/-- The frames injected for a datagram that are addressed to a group. -/
def framesTo (b : Bridge) (lib : WireLib) (n : Nat) (g : Group) : List Frame :=
  (b.framesOf n).filter fun f => groupOf lib f = some g

/-- Of the images of a list those of one element, told by a key, are as many as it counts. -/
theorem filter_filterMap_key {α β : Type} [DecidableEq α] [BEq α] [LawfulBEq α] (f : α → Option β) (key : β → Option α)
    (keyed : ∀ a y, f a = some y → key y = some a) (a : α) {y : β} (image : f a = some y) (l : List α) :
    ((l.filterMap f).filter fun z => key z = some a) = List.replicate (l.count a) y := by
  induction l with
  | nil => rfl
  | cons c l ih =>
    by_cases same : c = a
    · subst same
      simp [image, keyed c y image, ih, List.replicate_succ]
    · cases at_c : f c with
      | none => simp [at_c, ih, same]
      | some z => simp [at_c, keyed c z at_c, ih, same]

/-- A datagram that is small enough and not from the egress port gives a frame under every
socket's group. -/
theorem frameFor_some (doc : lib.Documented) (g : Group) {d : HostDatagram} (foreign : d.sport ≠ b.egressPort)
    (small : d.payload.length ≤ 1252) : ∃ f, b.frameFor lib g d = some f ∧
      buildUdp4 lib d.src d.sport g.1 g.2 d.payload = some f ∧
      parseUdp4 lib f = some (some { dst := g.1, dport := g.2, payload := d.payload }) := by
  obtain ⟨f, built, parsed⟩ := parse_build doc d.src d.sport g.1 g.2 small
  exact ⟨f, by simp [frameFor, foreign, built], built, parsed⟩

theorem buildUdp4_large (src : Ipv4) (sport : UInt16) (dst : Ipv4) (dport : UInt16) {payload : Bytes}
    (large : 1252 < payload.length) : buildUdp4 lib src sport dst dport payload = none :=
  if_pos (by simp only [ipv4HeaderLen]; omega)

theorem frameFor_none (g : Group) {d : HostDatagram} (drop : d.sport = b.egressPort ∨ 1252 < d.payload.length) :
    b.frameFor lib g d = none := by
  simp only [frameFor]
  split
  · rfl
  · next foreign => exact buildUdp4_large _ _ _ _ (drop.resolve_left foreign)

/-- What is addressed to the datagram's group is one frame, when no socket holds it back. -/
theorem Sound.one (sound : b.Sound lib) (doc : lib.Documented) (drained : b.Drained) {n : Nat} {h : Heard}
    (here : b.heard[n]? = some h) (joined : h.datagram.group ∈ h.joined)
    (foreign : h.datagram.sport ≠ b.egressPort) (small : h.datagram.payload.length ≤ 1252) :
    ∃ f, buildUdp4 lib h.datagram.src h.datagram.sport h.datagram.dst h.datagram.dport h.datagram.payload = some f ∧
      parseUdp4 lib f =
        some (some { dst := h.datagram.dst, dport := h.datagram.dport, payload := h.datagram.payload }) ∧
      b.framesTo lib n h.datagram.group = [f] := by
  obtain ⟨f, frame, built, parsed⟩ := frameFor_some doc h.datagram.group foreign small
  refine ⟨f, built, parsed, ?_⟩
  have once := sound.once n h here h.datagram.group
  rw [drained, if_pos ⟨joined, rfl⟩, List.count_nil, Nat.zero_add] at once
  have keyed : ∀ g y, b.frameFor lib g h.datagram = some y → groupOf lib y = some g := by
    intro g y at_g
    obtain ⟨f', frame', -, parsed'⟩ := frameFor_some (b := b) doc g foreign small
    obtain rfl : f' = y := Option.some.inj (frame'.symm.trans at_g)
    simp [groupOf, parsed']
  rw [framesTo, sound.frames n h here, filter_filterMap_key _ _ keyed _ frame, once, List.replicate_one]

/-- Of a datagram on a port without a joined group, or one that is dropped, nothing is
injected. -/
theorem Sound.nothing (sound : b.Sound lib) {n : Nat} {h : Heard} (here : b.heard[n]? = some h)
    (drop : (∀ g ∈ h.joined, g.2 ≠ h.datagram.dport) ∨ h.datagram.sport = b.egressPort ∨
      1252 < h.datagram.payload.length) : b.framesOf n = [] := by
  rw [sound.frames n h here]
  rcases drop with elsewhere | drop
  · have unread : b.read n = [] := List.eq_nil_iff_forall_not_mem.2 fun g read => by
      have once := sound.once n h here g
      rw [if_neg fun ⟨joined, port⟩ => elsewhere g joined port] at once
      exact (List.count_pos_iff.2 read).ne' (by omega)
    rw [unread, List.filterMap_nil]
  · exact List.filterMap_eq_nil_iff.2 fun g _ => frameFor_none g drop

end Bridge

open Bridge in
/-- In every run, a datagram sent to a group that was joined when it came, that is not from
the bridge's own source port and that the fabric can carry, gives exactly one frame addressed
to that group and port, with its source and payload, once the sockets are drained; one that
is from that port, too large, or on a port of no joined group gives none. -/
theorem groups_served {lib : WireLib} (doc : lib.Documented) (egressPort : UInt16) (groups : List Group)
    (events : List BridgeEvent) :
    let b := events.foldl (Bridge.step lib) (start egressPort groups)
    (∀ n h, b.heard[n]? = some h →
      (b.Drained → h.datagram.group ∈ h.joined → h.datagram.sport ≠ egressPort → h.datagram.payload.length ≤ 1252 →
        ∃ f, buildUdp4 lib h.datagram.src h.datagram.sport h.datagram.dst h.datagram.dport h.datagram.payload = some f ∧
          parseUdp4 lib f =
            some (some { dst := h.datagram.dst, dport := h.datagram.dport, payload := h.datagram.payload }) ∧
          b.framesTo lib n h.datagram.group = [f]) ∧
      ((∀ g ∈ h.joined, g.2 ≠ h.datagram.dport) ∨ h.datagram.sport = egressPort ∨
        1252 < h.datagram.payload.length → b.framesOf n = [])) ∧
    ∀ n, b.heard.length ≤ n → b.framesOf n = [] := by
  intro b
  have sound : b.Sound lib := (Sound.start egressPort groups).run events
  have port : b.egressPort = egressPort := run_egressPort events _
  refine ⟨fun n h here => ⟨fun drained joined foreign small => ?_, fun drop => ?_⟩, sound.none⟩
  · exact sound.one doc drained here joined (port ▸ foreign) small
  · exact sound.nothing here (port ▸ drop)

/-! ## Poles -/

section Poles

open Bridge

private def groupA : Ipv4 := { o0 := 239, o1 := 255, o2 := 0, o3 := 1 }

private def groupB : Ipv4 := { o0 := 239, o1 := 255, o2 := 0, o3 := 2 }

/-- From a host of the segment to a group. -/
private def heardBy (sport : UInt16) (dst : Ipv4) (dport : UInt16) (size : Nat) : HostDatagram where
  src := { o0 := 192, o1 := 168, o2 := 1, o3 := 7 }
  sport := sport
  dst := dst
  dport := dport
  payload := List.replicate size 7
  own := false

/-- A bridge that sends from port 50000 hears one datagram and reads every socket. -/
private def hears (groups : List Group) (d : HostDatagram) : Bridge :=
  (.reach d :: groups.map BridgeEvent.receive).foldl (Bridge.step smoltcp) (start 50000 groups)

/-- Reading a socket leaves the others as they are. -/
theorem receive_waiting (b : Bridge) (g g' : Group) :
    (b.receive smoltcp g).waiting g' = if g' = g then (b.waiting g').tail else b.waiting g' := by
  by_cases same : g' = g
  · subst same
    cases waits : b.waiting g' <;> simp [Bridge.receive, waits]
  · cases waits : b.waiting g <;> simp [Bridge.receive, waits, same]

theorem reads_waiting (groups : List Group) (g : Group) (b : Bridge) :
    (b.waiting g).length ≤ groups.count g →
      ((groups.map BridgeEvent.receive).foldl (Bridge.step smoltcp) b).waiting g = [] := by
  induction groups generalizing b with
  | nil => simp
  | cons g' groups ih =>
    intro few
    refine ih (b.receive smoltcp g') ?_
    rw [receive_waiting]
    split
    · next same =>
        simp only [same, List.count_cons_self] at few
        simp only [same, List.length_tail]
        omega
    · next other =>
        rwa [List.count_cons_of_ne (Ne.symm other)] at few

theorem hears_drained (groups : List Group) (d : HostDatagram) (apart : groups.Nodup) : (hears groups d).Drained := by
  intro g
  refine reads_waiting groups g ((start 50000 groups).reach d) ?_
  simp only [Bridge.reach, start, apart.dedup]
  split
  · next joined => simpa using joined.1
  · simp

/-- What kept apart says of the one datagram heard. -/
theorem hears_apart {groups : List Group} {d : HostDatagram} (own : d.own = false) (joined : d.group ∈ groups)
    (heard : (hears groups d).heard = [{ datagram := d, joined := groups }])
    (apart : (hears groups d).KeepsApart smoltcp) :
    ∃ f, buildUdp4 smoltcp d.src d.sport d.dst d.dport d.payload = some f ∧ (hears groups d).framesOf 0 = [f] := by
  have here := apart 0 { datagram := d, joined := groups } (by rw [heard]; rfl)
  rwa [if_pos ⟨joined, own⟩] at here

/-- A datagram larger than a frame of the fabric, one of a peer whose port is the bridge's, and
one on a port that two groups share are not one frame each. -/
theorem groups_mixed :
    ((hears [(groupA, 7400)] (heardBy 7400 groupA 7400 1253)).Drained ∧
      ¬ (hears [(groupA, 7400)] (heardBy 7400 groupA 7400 1253)).KeepsApart smoltcp) ∧
    ((hears [(groupA, 7400)] (heardBy 50000 groupA 7400 1)).Drained ∧
      ¬ (hears [(groupA, 7400)] (heardBy 50000 groupA 7400 1)).KeepsApart smoltcp) ∧
    ((hears [(groupA, 7400), (groupB, 7400)] (heardBy 7400 groupA 7400 1)).Drained ∧
      ¬ (hears [(groupA, 7400), (groupB, 7400)] (heardBy 7400 groupA 7400 1)).KeepsApart smoltcp) := by
  refine ⟨⟨hears_drained _ _ (by decide), fun apart => ?_⟩, ⟨hears_drained _ _ (by decide), fun apart => ?_⟩,
    hears_drained _ _ (by decide), fun apart => ?_⟩
  · obtain ⟨f, built, -⟩ := hears_apart rfl (by decide) rfl apart
    rw [buildUdp4_large _ _ _ _ (by simp only [heardBy, List.length_replicate]; omega)] at built
    cases built
  · obtain ⟨f, -, frames⟩ := hears_apart rfl (by decide) rfl apart
    have nothing : (hears [(groupA, 7400)] (heardBy 50000 groupA 7400 1)).framesOf 0 = [] := by decide
    simp [nothing] at frames
  · obtain ⟨f, -, frames⟩ := hears_apart rfl (by decide) rfl apart
    have two : ((hears [(groupA, 7400), (groupB, 7400)] (heardBy 7400 groupA 7400 1)).framesOf 0).length = 2 := by decide
    simp [frames] at two

/-- One octet for the group the bridge joined, and one for another port. -/
theorem served_group :
    (∃ f, parseUdp4 smoltcp f = some (some { dst := groupA, dport := 7400, payload := [7] }) ∧
        (hears [(groupA, 7400)] (heardBy 7400 groupA 7400 1)).framesTo smoltcp 0 (groupA, 7400) = [f]) ∧
      (hears [(groupA, 7400)] (heardBy 7400 groupA 7401 1)).framesOf 0 = [] := by
  have served := groups_served smoltcp_documented 50000 [(groupA, 7400)]
  refine ⟨?_, ?_⟩
  · obtain ⟨f, -, parsed, frames⟩ := ((served [.reach (heardBy 7400 groupA 7400 1), .receive (groupA, 7400)]).1 0 _ rfl).1
      (hears_drained [(groupA, 7400)] _ (by decide)) (by decide) (by decide) (by decide)
    exact ⟨f, parsed, frames⟩
  · exact ((served [.reach (heardBy 7400 groupA 7401 1), .receive (groupA, 7400)]).1 0 _ rfl).2 (.inl (by decide))

end Poles

end Wk.Fabric
