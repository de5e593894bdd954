/-
# Wk.Protocol -- the vocabulary between a client and the server

The messages of `wk-protocol`: node ids, the wires two nodes can form, the
boundary ports of a definition, and `Command`, everything a client may ask the
server to do.  Geometry is carried and never computed with, so a single-precision
number is its bit pattern (`F32`).
-/
import Mathlib

namespace Wk

set_option autoImplicit false

/-- A node identifier: the 128-bit value of a UUIDv7.  Ids are compared and
ordered, never computed with. -/
abbrev NodeId := Nat

/-- A wire's two ends, in the order its relation stores them. -/
abbrev Pair := NodeId × NodeId

/-- Two wires are the same when their ends are. -/
instance : LawfulBEq Pair := inferInstance

/-- The bit pattern of an IEEE single. -/
abbrev F32 := UInt32

abbrev Bytes := List UInt8

/-- A position or a size on the canvas. -/
abbrev Vec2 := F32 × F32

/-- A free pose in the 3D world: `[x, y, z, yaw]`. -/
abbrev Pose := F32 × F32 × F32 × F32

/-- A connection wire, identified by the two node ids it joins (by kind). -/
inductive Wire where
  | bind (volume app : NodeId)
  | midi (src dst : NodeId)
  | serve (http hostport : NodeId)
  | net (app net : NodeId)
  | capture (app cap : NodeId)
  | api (app api : NodeId)
  | clipboard (app clip : NodeId)
  deriving DecidableEq, Repr

/-- What a connection carries, named independently of the nodes on its ends. -/
inductive PortKind where
  | bind | midi | serve | net | capture | clipboard | api
  deriving DecidableEq, Repr

namespace PortKind

/-- The stable word a `.wk` file writes for this kind. -/
def asStr : PortKind → String
  | bind => "bind"
  | midi => "midi"
  | serve => "serve"
  | net => "net"
  | capture => "capture"
  | clipboard => "clipboard"
  | api => "api"

end PortKind

/-- Which end of a connection something is. -/
inductive PortDir where
  | inward | outward
  deriving DecidableEq, Repr

/-- The other end: what a port must meet to form a connection. -/
def PortDir.opposite : PortDir → PortDir
  | .inward => .outward
  | .outward => .inward

/-- What kind of node to create. -/
inductive NodeKind where
  | app (dep : Nat)
  | volume | bindMount | port | network | gateway | router | iroh | veilid | note
  | capture | api | midiIn | clipboard | hostService | midiOut | multicast
  deriving DecidableEq, Repr

/-- One `in`/`out` line of a `group` block: a node of the group's own canvas
joined to one of the definition's named boundary ports. -/
structure BoundaryWire where
  group : NodeId
  dir : PortDir
  port : String
  node : NodeId
  deriving DecidableEq, Repr

/-- A resource to create. -/
inductive Resource where
  | node (kind : NodeKind) (pos : Vec2) (ws : NodeId)
  | hostMount (path : String) (pos : Vec2) (ws : NodeId)
  | wire (a b : NodeId)
  | workspace (id : NodeId)
  | boundary (line : BoundaryWire)
  deriving DecidableEq, Repr

/-- A reference to an existing resource, for deletes. -/
inductive ResourceRef where
  | node (id : NodeId)
  | wire (w : Wire)
  | workspace (id : NodeId)
  | boundary (line : BoundaryWire)
  deriving DecidableEq, Repr

/-- A partial update to a node; only the present fields change. -/
structure NodePatch where
  pos : Option Vec2 := none
  pos3d : Option Pose := none
  panel3d : Option Bool := none
  size : Option Vec2 := none
  args : Option String := none
  portDelta : Option Int := none
  portSet : Option Nat := none
  text : Option String := none
  hostPath : Option String := none
  midiDevice : Option String := none
  persist : Option Bool := none
  serviceName : Option String := none
  serviceTarget : Option String := none
  deriving DecidableEq, Repr

/-- How a client shows the document. -/
inductive ViewMode where
  | flat | world | toggle
  deriving DecidableEq, Repr

/-- A mutation a client asks the server to perform. -/
inductive Command where
  | create (resource : Resource)
  | update (id : NodeId) (patch : NodePatch)
  | delete (resource : ResourceRef)
  | setMount (volume app : NodeId) (path : String)
  | setMidiChannel (src dst : NodeId) (channel : Nat)
  | setServePort (served hostport : NodeId) (container : Nat)
  | setMulticast (id : NodeId) (iface : Option String) (groups : List String)
  | setToken (id : NodeId) (token : Bytes)
  | run (id : NodeId)
  | stop (id : NodeId)
  | duplicate (id : NodeId)
  | undo
  | setView (mode : ViewMode)
  deriving DecidableEq, Repr

/-- The kinds of resource a command acts on. -/
inductive ResourceKind where
  | workspace | node | wire | document
  deriving DecidableEq, Repr

/-- What a command does to a resource; `arrange` is cosmetic layout, weaker than
`update`. -/
inductive Action where
  | create | read | update | delete | arrange | run
  deriving DecidableEq, Repr

/-- The right a client's token must grant for the server to apply this command. -/
def Command.required : Command → ResourceKind × Action
  | create (.node ..) | create (.hostMount ..) => (.node, .create)
  | create (.wire ..) | create (.boundary _) => (.wire, .create)
  | create (.workspace _) => (.workspace, .create)
  | update _ patch =>
    if patch.args.isSome || patch.portDelta.isSome || patch.portSet.isSome ||
        patch.hostPath.isSome || patch.persist.isSome then (.node, .update)
    else (.node, .arrange)
  | delete (.node _) => (.node, .delete)
  | delete (.wire _) | delete (.boundary _) => (.wire, .delete)
  | setMount .. | setServePort .. | setMidiChannel .. => (.wire, .update)
  | delete (.workspace _) => (.workspace, .delete)
  | setToken .. | setMulticast .. => (.node, .update)
  | run _ | stop _ => (.node, .run)
  | duplicate _ => (.node, .create)
  | undo => (.document, .update)
  | setView _ => (.document, .arrange)

/-- The two node ids a wire joins. -/
def Wire.ends : Wire → Pair
  | .bind a b | .midi a b | .serve a b | .net a b | .capture a b | .clipboard a b | .api a b => (a, b)

end Wk
