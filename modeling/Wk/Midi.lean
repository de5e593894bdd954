/-
# Wk.Midi -- MIDI wires and the notes they hold

A source's messages go down every wire that leaves it, into the inboxes of the
destinations.  A wire keeps the notes it has turned on, so that cutting it, deleting its
source or narrowing it to another channel can release them.

A message delivered before its instant waits for it; one delivered late, or stamped 0,
takes effect at once.
-/
import Mathlib
import Wk.Protocol
import Wk.Library.MidiBytes

namespace Wk.Midi

open Wk.Library

set_option autoImplicit false

/-- One MIDI message: raw status and data bytes. -/
abbrev Message := List UInt8

/-- A `(channel, note)` pair. -/
abbrev Key := UInt8 × UInt8

/-- A MIDI message and when it belongs; `0` means as soon as possible. -/
structure Event where
  data : Message
  time : Nat
  deriving DecidableEq, Repr

namespace Event

/-- A message to take effect immediately. -/
def now (data : Message) : Event := { data, time := 0 }

/-- Is this a note-off, in either spelling? -/
def isNoteOff (e : Event) : Bool :=
  match e.data with
  | [status, _, velocity] => status &&& 0xF0 = 0x80 || (status &&& 0xF0 = 0x90 && velocity = 0)
  | _ => false

end Event

/-- How many messages a node may fall behind before the router starts shedding. -/
def backlog : Nat := 1024

/-- A message in an inbox, with the clock's reading when it was put there. -/
structure Delivery where
  event : Event
  clock : Nat
  deriving DecidableEq, Repr

/-- When a delivered message takes effect. -/
def Delivery.effect (d : Delivery) : Nat := max d.event.time d.clock

/-- A node's input queue.  `received` is what the node has taken out of it, and `full`
remembers that the backlog was reached. -/
structure Inbox where
  queue : List Delivery := []
  received : List Delivery := []
  full : Bool := false
  deriving DecidableEq, Repr

namespace Inbox

/-- When shedding, something that is not a note-off is dropped. -/
def push (inbox : Inbox) (d : Delivery) : Inbox :=
  if backlog ≤ inbox.queue.length then
    let kept := match inbox.queue.findIdx? fun d => !d.event.isNoteOff with
      | some i => inbox.queue.eraseIdx i
      | none => inbox.queue.tail
    { inbox with queue := kept ++ [d], full := true }
  else { inbox with queue := inbox.queue ++ [d] }

/-- The node takes a message. -/
def receive (inbox : Inbox) : Inbox :=
  { inbox with queue := inbox.queue.tail, received := inbox.received ++ inbox.queue.head?.toList }

/-- Everything that has been put in, in order. -/
def all (inbox : Inbox) : List Delivery := inbox.received ++ inbox.queue

end Inbox

/-- The note a message turns on. -/
def turnsOn : Message → Option Key
  | [status, a, b] => if status &&& 0xF0 = 0x90 ∧ b ≠ 0 then some (status &&& 0x0F, a) else none
  | _ => none

/-- A note-off for a key, or a controller that releases its whole channel. -/
def turnsOff (k : Key) : Message → Bool
  | [status, a, b] =>
    ((status &&& 0xF0 = 0x80 || (status &&& 0xF0 = 0x90 && b = 0)) && (status &&& 0x0F, a) = k) ||
      (status &&& 0xF0 = 0xB0 && (a = 120 || a = 121 || a = 123) && status &&& 0x0F = k.1)
  | _ => false

/-- One wire from a source node to a destination node. -/
structure Link where
  dst : NodeId
  inbox : Nat
  /-- The one MIDI channel this wire carries, 1 to 16; `none` carries all of them. -/
  channel : Option UInt8 := none
  /-- The notes this wire has turned on and not yet turned off. -/
  held : List Key := []
  deriving DecidableEq, Repr

namespace Link

/-- Does this wire carry the message?  System messages always pass. -/
def carries (link : Link) (msg : Message) : Bool :=
  match link.channel with
  | none => true
  | some want =>
    match msg.head? with
    | some status => if status < 0xF0 then (status &&& 0x0F) + 1 = want else true
    | none => true

/-- Track what a message does to the set of sounding notes. -/
def observe (link : Link) (msg : Message) : Link :=
  match msg with
  | [status, a, b] =>
    let channel := status &&& 0x0F
    if status &&& 0xF0 = 0x90 ∧ b ≠ 0 then { link with held := link.held.insert (channel, a) }
    else if status &&& 0xF0 = 0x80 ∨ status &&& 0xF0 = 0x90 then
      { link with held := link.held.filter (· ≠ (channel, a)) }
    else if status &&& 0xF0 = 0xB0 ∧ (a = 120 ∨ a = 121 ∨ a = 123) then
      { link with held := link.held.filter (·.1 ≠ channel) }
    else link
  | _ => link

def noteOff (k : Key) : Event := .now [0x80 ||| k.1, k.2, 0]

/-- Release every note this wire is holding, then clear the channels. -/
def release (link : Link) : List Event :=
  link.held.map noteOff ++ (link.held.map Prod.fst).dedup.map fun c => .now [0xB0 ||| c, 123, 0]

/-- Set the channel; what the wire no longer carries is released. -/
def setChannel (link : Link) (channel : Option UInt8) : Link × List Event :=
  if link.channel = channel then (link, [])
  else
    let link := { link with channel }
    let carried : Key → Bool := fun k => link.carries [0x90 ||| k.1, k.2, 1]
    ({ link with held := link.held.filter carried }, (link.held.filter fun k => !carried k).map noteOff)

end Link

/-- Source node id to the wires leaving it. -/
structure Routes where
  links : NodeId → List Link := fun _ => []

namespace Routes

/-- What the events of a link are pushed to. -/
def into (link : Link) (events : List Event) : List (Nat × Event) := events.map fun e => (link.inbox, e)

def connect (r : Routes) (src dst : NodeId) (inbox : Nat) : Routes :=
  if (r.links src).any fun l => l.dst = dst then r
  else { links := Function.update r.links src (r.links src ++ [{ dst, inbox }]) }

def setChannel (r : Routes) (src dst : NodeId) (channel : Option UInt8) : Routes × List (Nat × Event) :=
  let channel := channel.filter fun c => 1 ≤ c && c ≤ 16
  ({ links := Function.update r.links src ((r.links src).map fun l =>
      if l.dst = dst then (l.setChannel channel).1 else l) },
    ((r.links src).filter fun l => l.dst = dst).flatMap fun l => into l (l.setChannel channel).2)

/-- Cut a wire, releasing any notes it left sounding. -/
def disconnect (r : Routes) (src dst : NodeId) : Routes × List (Nat × Event) :=
  ({ links := Function.update r.links src ((r.links src).filter fun l => l.dst ≠ dst) },
    ((r.links src).filter fun l => l.dst = dst).flatMap fun l => into l l.release)

/-- Drop a node entirely, as a source and as any destination. -/
def removeNode (r : Routes) (id : NodeId) : Routes × List (Nat × Event) :=
  ({ links := fun src => if src = id then [] else (r.links src).filter fun l => l.dst ≠ id },
    (r.links id).flatMap fun l => into l l.release)

def send (r : Routes) (src : NodeId) (e : Event) : Routes × List (Nat × Event) :=
  ({ links := Function.update r.links src ((r.links src).map fun l =>
      if l.carries e.data then l.observe e.data else l) },
    ((r.links src).filter fun l => l.carries e.data).map fun l => (l.inbox, e))

end Routes

/-- The router with the inboxes it delivers to. -/
structure Patchbay where
  routes : Routes := {}
  inboxes : Nat → Inbox := fun _ => {}

/-- A call on the router, or a node that takes a message from its inbox. -/
inductive Op where
  | connect (src dst : NodeId) (inbox : Nat)
  | send (src : NodeId) (e : Event)
  | setChannel (src dst : NodeId) (channel : Option UInt8)
  | disconnect (src dst : NodeId)
  | removeNode (id : NodeId)
  | receive (inbox : Nat)
  deriving DecidableEq, Repr

/-- Push events to their inboxes, in order. -/
def deliver (now : Nat) (inboxes : Nat → Inbox) (pushes : List (Nat × Event)) : Nat → Inbox :=
  pushes.foldl (fun inboxes p =>
    Function.update inboxes p.1 ((inboxes p.1).push { event := p.2, clock := now })) inboxes

namespace Patchbay

def apply (w : Patchbay) (now : Nat) (out : Routes × List (Nat × Event)) : Patchbay :=
  { routes := out.1, inboxes := deliver now w.inboxes out.2 }

/-- One call, with the clock's reading at it. -/
def step (w : Patchbay) (x : Nat × Op) : Patchbay :=
  match x.2 with
  | .connect src dst inbox => { w with routes := w.routes.connect src dst inbox }
  | .send src e => w.apply x.1 (w.routes.send src e)
  | .setChannel src dst channel => w.apply x.1 (w.routes.setChannel src dst channel)
  | .disconnect src dst => w.apply x.1 (w.routes.disconnect src dst)
  | .removeNode id => w.apply x.1 (w.routes.removeNode id)
  | .receive inbox =>
    { w with inboxes := Function.update w.inboxes inbox (w.inboxes inbox).receive }

def run (w : Patchbay) (ops : List (Nat × Op)) : Patchbay := ops.foldl step w

end Patchbay

end Wk.Midi
