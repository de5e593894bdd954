/-
# Wk.Server.State -- what the running server is made of

`World` is what stays fixed during a run and is not the server's own code: the
digests, the id mint, token checks.  `Host` is what the machine answers during one
step: which components have compiled, which endpoints start, in which order a hash
map yields its keys.  `Server` is the state itself, typed by the graph it was
started from so that its history is the history of one document.
-/
import Wk.Instancing
import Wk.Server.Graph
import Wk.Vfs
import Mathlib

namespace Wk

open Wk.Library

set_option autoImplicit false

/-! ## The world and the host -/

/-- What a run takes from outside and never changes. -/
structure World where
  digests : Digests
  /-- The ids `NodeId::new` yields, in order. -/
  mint : Nat → NodeId
  /-- An image's own default arguments. -/
  imageArgs : Source → List String
  /-- Whether a token is signed by the workspace's token service. -/
  verifies : Bytes → Bool
  /-- Whether a token, with the wires of its bearer as facts, allows an action on a
  target of some kind. -/
  authorizeUse : Bytes → List (String × NodeId) → String → NodeId → String → Bool
  /-- A canvas position moved by 40 in both directions. -/
  offset : Vec2 → Vec2

/-- What a component publishes once it has compiled. -/
structure Setup where
  net : Bool := false
  fsProvider : Bool := false
  deriving DecidableEq, Repr

/-- What the machine answers during one step. -/
structure Host where
  /-- The setup of a compiled component; `none` while it is loading. -/
  setup : NodeId → Option Setup
  /-- Whether a node's background work has ended. -/
  finished : NodeId → Bool
  /-- An Iroh endpoint's secret, if it starts. -/
  uplink : NodeId → Option Bytes → Option Bytes
  /-- A Veilid endpoint's identity, if it starts. -/
  veilidUplink : NodeId → Option String → Option String
  /-- Whether a multicast bridge starts. -/
  multicastBridge : NodeId → Mcast → Bool
  /-- The name of the MIDI input opened for a wanted device. -/
  openMidi : NodeId → String → Option String
  openMidiOutput : NodeId → String → Option String
  /-- A persisted volume's bytes. -/
  sidecar : NodeId → Bytes
  /-- The walk of a host directory; `none` for a file. -/
  hostWalk : String → Option (List (String × Bool))
  /-- The order in which a hash map yields keys. -/
  pairs : List Pair → List Pair
  ids : List NodeId → List NodeId
  pairs_perm : ∀ l, (pairs l).Perm l
  ids_perm : ∀ l, (ids l).Perm l

/-- A world that mints the odd numbers from 1001 up and accepts every token. -/
def World.plain : World where
  digests := .apart
  mint := fun n => 1001 + 2 * n
  imageArgs := fun _ => []
  verifies := fun _ => true
  authorizeUse := fun _ _ _ _ _ => true
  offset := id

/-- A host that starts everything it is asked to and yields keys as they are
listed; `setup` says which components have compiled. -/
def Host.plain (setup : NodeId → Option Setup) : Host where
  setup := setup
  finished := fun _ => false
  uplink := fun _ secret => some (secret.getD [])
  veilidUplink := fun _ identity => some (identity.getD "")
  multicastBridge := fun _ _ => true
  openMidi := fun _ want => some want
  openMidiOutput := fun _ want => some want
  sidecar := fun _ => []
  hostWalk := fun _ => none
  pairs := id
  ids := id
  pairs_perm := fun l => .refl l
  ids_perm := fun l => .refl l

/-! ## Undo -/

/-- Everything needed to bring a removed node back. -/
structure Snapshot where
  ws : NodeId
  node : NodeSnap
  fileData : Bytes
  wires : List Pair
  boundary : List BoundaryWire

/-- Everything needed to bring a removed tab back. -/
structure WsSnapshot where
  id : NodeId
  index : Nat
  name : Option String
  nodes : List Snapshot

/-- A recorded inverse of one mutation. -/
inductive Undo where
  | pos (id : NodeId) (pos : Vec2)
  | size (id : NodeId) (size : Vec2)
  | args (id : NodeId) (args : List String)
  | port (id : NodeId) (port : Nat)
  | text (id : NodeId) (text : String)
  | wire (a b : NodeId)
  | rewireUnique (src newDst : NodeId) (oldDst : Option NodeId)
  | token (id : NodeId) (old : Option Bytes)
  | boundary (line : BoundaryWire) (wired : Bool)
  | uncreate (ids : List NodeId)
  | recreate (s : Snapshot)
  | dropWorkspace (id : NodeId)
  | recreateWorkspace (s : WsSnapshot)

/-- Longest undo history kept. -/
def undoCap : Nat := 200

/-! ## Runtime -/

/-- A live app node: its guest's name and knobs, and which filesystem it has. -/
structure AppNode where
  id : NodeId
  name : String
  options : List F32
  fs : Nat
  deriving DecidableEq, Repr

/-- An active file mount: where, in which filesystem, and in which mode. -/
structure Mount where
  path : String
  fs : Nat
  writable : Bool
  deriving DecidableEq, Repr

/-- The running half: live guests, their filesystems, the volumes' bytes and the
mounts in effect. -/
structure Runtime where
  apps : List AppNode := []
  fss : Table Nat Vfs.Fs := ∅
  nextFs : Nat := 0
  cells : Table Nat Bytes := ∅
  nextCell : Nat := 0
  mounted : Table Pair Mount := ∅
  pendingRun : List NodeId := []

/-- The live app node with id `id`. -/
def Runtime.appNode (rt : Runtime) (id : NodeId) : Option AppNode :=
  rt.apps.find? fun n => n.id = id

/-- One live instance: what a `group` node expanded to. -/
structure InstanceRec where
  tab : NodeId
  parent : Option NodeId
  definition : String
  name : String
  /-- Every node this instance placed. -/
  nodes : List NodeId
  /-- Every wire the expansion actually made. -/
  wires : List (WireRel × NodeId × NodeId)

/-! ## The server -/

/-- The authoritative running workspace, begun from the graph `start`. -/
structure Server (start : Graph) where
  history : History start
  runtime : Runtime := {}
  unplaced : List (NodeId × NodeSnap) := []
  unplacedWires : List (NodeId × WireRel × NodeId × NodeId) := []
  authored : List (Nat × Workspace) := []
  instances : Table NodeId InstanceRec := ∅
  pendingAppWires : List Pair := []
  /-- The base node token, once node auth is on. -/
  nodeAuth : Option Bytes := none
  /-- The undo stack, newest first. -/
  undo : List Undo := []
  nextPort : Nat := 8080
  fileSeq : Nat := 0
  hostSeq : Nat := 0
  viewMode : Nat × ViewMode := (0, .flat)
  imports : List String := []
  importedDeps : List String := []
  importedWorkspaces : List NodeId := []
  scratchTab : Option NodeId := none
  /-- How many ids have been minted. -/
  minted : Nat := 0

namespace Server

variable {start : Graph}

/-- The base facts. -/
def graph (s : Server start) : Graph := s.history.graph

/-- Apply one edit to the graph. -/
def perform (s : Server start) (e : Edit) : Server start := { s with history := s.history.perform e }

@[simp] theorem perform_graph (s : Server start) (e : Edit) : (s.perform e).graph = e.apply s.graph :=
  rfl

def nodeExists (s : Server start) (id : NodeId) : Bool := id ∈ s.graph.nodes

/-- Whether this node was placed by an expansion rather than written in the file. -/
def isDerived (s : Server start) (id : NodeId) : Bool :=
  match s.graph.nodes.lookup id with
  | some rec => rec.ws ∈ s.instances
  | none => false

/-- Whether `net` is a private per-pair link's synthetic id. -/
def isPrivateLinkNet (s : Server start) (net : NodeId) : Bool :=
  (Table.values s.graph.appLinkNets).contains net

/-- Mint a fresh id. -/
def allocId (w : World) (s : Server start) : NodeId × Server start :=
  (w.mint s.minted, { s with minted := s.minted + 1 })

/-- The first generated name of `id` no node has.  The source's walk has no bound;
past `walk` candidates this one takes the next. -/
def generatedNodeName (w : World) (s : Server start) (id : NodeId) : String :=
  (Nodename.firstFree w.digests id fun n => !(Table.values s.graph.nodeNames).contains n).getD
    (Nodename.generated w.digests id w.digests.walk)

/-- How a client names an instance. -/
def instanceLabel (s : Server start) (id : NodeId) : String :=
  match s.instances.lookup id with
  | some rec => rec.name
  | none => ""

end Server

/-! ## Capability tokens -/

namespace Graph

/-- Every wire app node `id` currently has, as the facts its token is checked
against. -/
def wiresOf (g : Graph) (id : NodeId) : List (String × NodeId) :=
  (g.connections.filter fun l => l.2 = id).map (fun l => ("file", l.1)) ++
  (g.midiLinks.filter fun l => l.1 = id).map (fun l => ("midi", l.2)) ++
  (g.midiLinks.filter fun l => l.2 = id).map (fun l => ("midi", l.1)) ++
  (g.serveLinks.filter fun l => l.1 = id).map (fun l => ("port", l.2)) ++
  (g.netLinks.filter fun l => l.1 = id).map
    (fun l => (if g.kindOf l.2 = some .gateway then "gateway" else "net", l.2)) ++
  (g.captureLinks.filter fun l => l.1 = id).map (fun l => ("capture", l.2)) ++
  (g.clipboardLinks.filter fun l => l.1 = id).map (fun l => ("clipboard", l.2)) ++
  (g.apiLinks.filter fun l => l.1 = id).map (fun l => ("api", l.2))

/-- Whether node `id`'s token authorizes `action` on a target: always with
enforcement off and for nodes that are no app. -/
def nodeMayUse (w : World) (auth : Option Bytes) (g : Graph) (id : NodeId) (kind : String)
    (target : NodeId) (action : String) : Bool :=
  match auth with
  | none => true
  | some base =>
    if g.kindOf id ≠ some .app then true
    else w.authorizeUse ((g.nodeTokens.lookup id).getD base) (g.wiresOf id) kind target action

/-- A node's effective token: its own, else the base; empty with auth off. -/
def effectiveNodeToken (auth : Option Bytes) (g : Graph) (id : NodeId) : Bytes :=
  match g.nodeTokens.lookup id with
  | some token => token
  | none => auth.getD []

/-- The in-app path a bind mounts at: the override if set, else the volume's name,
else the name of the app that serves it. -/
def mountPathFor (g : Graph) (rt : Runtime) (volume app : NodeId) : String :=
  match g.mountPaths.lookup (volume, app) with
  | some path => path
  | none =>
    match g.fileNodes.lookup volume with
    | some f => f.name
    | none =>
      match rt.appNode volume with
      | some n => n.name
      | none => ""

end Graph

/-- Decimal digits as a number, if they are nothing else and below the bound. -/
def parseDigits (bound : Nat) : List Char → Nat → Option Nat
  | [], n => if n < bound then some n else none
  | c :: rest, n =>
    if '0' ≤ c ∧ c ≤ '9' then parseDigits bound rest (10 * n + (c.toNat - '0'.toNat)) else none

/-- `str::parse::<u32>`: an optional plus sign and at least one digit. -/
def parseU32 (chars : List Char) : Option Nat :=
  let digits := if chars.head? = some '+' then chars.tail else chars
  if digits = [] then none else parseDigits (2 ^ 32) digits 0

/-- The in-app mount name for a host path: its base name. -/
def hostFileName (path : String) : String :=
  match (Vfs.components path).reverse with
  | [] => "hostfile"
  | name :: _ => if name = ".." then "hostfile" else name

end Wk
