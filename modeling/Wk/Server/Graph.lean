/-
# Wk.Server.Graph -- the base facts of a running workspace and the edits to them

`Graph` is the document as the server holds it: every node's record, the side
tables keyed by node id, the seven link lists, the per-wire overrides and the
tabs.  Everything the server does to it is one of the `Edit`s below, each written
as the source writes it: a toggle, a placement, a removal (by kind), the minting
or parting of a private net, an update of one table.

A `History` is a graph together with the edits that led to it.  Its `replay` field
says that the graph is what those edits make of the one it started from, so a
property that every edit keeps holds of every history, and a condition on a run can
be put as a condition on each edit in the graph it was applied to.
-/
import Wk.Wiring
import Wk.Workspace
import Wk.Library.Run

namespace Wk

open Wk.Library

set_option autoImplicit false

/-! ## Records -/

/-- What kind of node this is. -/
inductive Kind where
  | app | file | port | network | gateway | router | iroh | veilid | note | capture | clipboard
  | api | midiIn | hostService | boundary | group | midiOut | multicast
  deriving DecidableEq, Repr

namespace Kind

/-- The position of the variant, by which a save orders a workspace's nodes. -/
def rank : Kind → Nat
  | app => 0 | file => 1 | port => 2 | network => 3 | gateway => 4 | router => 5 | iroh => 6
  | veilid => 7 | note => 8 | capture => 9 | clipboard => 10 | api => 11 | midiIn => 12
  | hostService => 13 | boundary => 14 | group => 15 | midiOut => 16 | multicast => 17

/-- A network node is either a plain Network or a Gateway. -/
def isNet : Kind → Bool
  | network | gateway => true
  | _ => false

end Kind

/-- A placed node's base record. -/
structure NodeRec where
  kind : Kind
  ws : NodeId
  pos : Vec2
  size : Vec2
  deriving DecidableEq, Repr

/-- A canvas volume node.  A Volume's bytes live in a shared cell, named here by
its index. -/
inductive FileNode where
  | volume (name : String) (data : Nat) (persist : Bool)
  | bind (name : String) (path : String)
  deriving DecidableEq, Repr

/-- The in-app file name this node mounts as. -/
def FileNode.name : FileNode → String
  | volume name _ _ => name
  | bind name _ => name

/-- A Multicast bridge node's configuration. -/
structure Mcast where
  iface : Option String := none
  groups : List String := []
  deriving DecidableEq, Repr

/-- A host TCP service published into a Network as a named fabric peer. -/
structure HostService where
  name : String
  target : String
  deriving DecidableEq, Repr

/-- A boundary port's declaration. -/
structure BoundaryPort where
  name : String
  dir : PortDir
  kind : PortKind
  deriving DecidableEq, Repr

/-- A `group` node's declaration: the definition it instantiates and the wires
crossing that definition's boundary, by port name. -/
structure GroupNode where
  definition : String
  name : Option String
  inWires : List (String × NodeId)
  outWires : List (String × NodeId)
  deriving DecidableEq, Repr

namespace GroupNode

/-- The lines of one direction. -/
def lines (g : GroupNode) : PortDir → List (String × NodeId)
  | .inward => g.inWires
  | .outward => g.outWires

def setLines (g : GroupNode) (dir : PortDir) (lines : List (String × NodeId)) : GroupNode :=
  match dir with
  | .inward => { g with inWires := lines }
  | .outward => { g with outWires := lines }

/-- Drop every line that names `id`. -/
def dropNode (g : GroupNode) (id : NodeId) : GroupNode :=
  { g with
    inWires := g.inWires.filter fun l => l.2 ≠ id
    outWires := g.outWires.filter fun l => l.2 ≠ id }

end GroupNode

/-- A node's kind together with what its side tables say. -/
inductive Payload where
  | app (dep name : String) (args : List String) (token : Option Bytes)
  | file (f : FileNode)
  | port (port : Nat)
  | network | gateway | router | capture | clipboard | api
  | iroh (secret : Bytes)
  | veilid (identity : String)
  | note (text : String)
  | midiIn (device : String)
  | midiOut (device : String)
  | hostService (svc : HostService)
  | multicast (cfg : Mcast)
  | boundary (port : BoundaryPort)
  | group (g : GroupNode)
  deriving DecidableEq, Repr

def Payload.kind : Payload → Kind
  | app .. => .app
  | file .. => .file
  | port .. => .port
  | network => .network
  | gateway => .gateway
  | router => .router
  | capture => .capture
  | clipboard => .clipboard
  | api => .api
  | iroh .. => .iroh
  | veilid .. => .veilid
  | note .. => .note
  | midiIn .. => .midiIn
  | midiOut .. => .midiOut
  | hostService .. => .hostService
  | multicast .. => .multicast
  | boundary .. => .boundary
  | group .. => .group

/-- The definition a group instantiates. -/
def Payload.definition : Payload → Option String
  | group g => some g.definition
  | _ => none

/-! ## The graph -/

/-- The nodes of a document with their side tables, and its tabs. -/
structure Canvas where
  nodes : Table NodeId NodeRec := ∅
  nodeArgs : Table NodeId (List String) := ∅
  nodeDeps : Table NodeId String := ∅
  nodeNames : Table NodeId String := ∅
  pos3d : Table NodeId Pose := ∅
  hiddenPanel3d : Table NodeId Unit := ∅
  fileNodes : Table NodeId FileNode := ∅
  hostPorts : Table NodeId Nat := ∅
  noteText : Table NodeId String := ∅
  midiIns : Table NodeId String := ∅
  midiOuts : Table NodeId String := ∅
  multicasts : Table NodeId Mcast := ∅
  hostServices : Table NodeId HostService := ∅
  boundaryPorts : Table NodeId BoundaryPort := ∅
  groups : Table NodeId GroupNode := ∅
  nodeTokens : Table NodeId Bytes := ∅
  irohSecrets : Table NodeId Bytes := ∅
  veilidIds : Table NodeId String := ∅
  workspaces : List NodeId := []
  workspaceNames : Table NodeId String := ∅
  available : List Dependency := []

/-- The wires of a document with their overrides, and the private nets. -/
structure Wires where
  links : WireRel → List Pair := fun _ => []
  mountPaths : Table Pair String := ∅
  servePorts : Table Pair Nat := ∅
  midiChannels : Table Pair Nat := ∅
  /-- The private net of each pair of directly wired, networked apps. -/
  appLinkNets : Table Pair NodeId := ∅

/-- The workspace graph: the persisted, syncable source of truth. -/
structure Graph extends Canvas, Wires

/-- This node's kind, if it exists. -/
def Canvas.kindOf (c : Canvas) (id : NodeId) : Option Kind := (c.nodes.lookup id).map NodeRec.kind

namespace Graph

abbrev connections (g : Graph) : List Pair := g.links .connection
abbrev midiLinks (g : Graph) : List Pair := g.links .midi
abbrev serveLinks (g : Graph) : List Pair := g.links .serve
abbrev netLinks (g : Graph) : List Pair := g.links .netLink
abbrev captureLinks (g : Graph) : List Pair := g.links .captureLink
abbrev clipboardLinks (g : Graph) : List Pair := g.links .clipboardLink
abbrev apiLinks (g : Graph) : List Pair := g.links .apiLink

/-- Whether two nodes are already joined by any connection, either way round. -/
def wired (g : Graph) (a b : NodeId) : Bool :=
  WireRel.all.any fun r => (g.links r).any fun l => l = (a, b) || l = (b, a)

/-- What kind of node `id` is, for classifying a wire. -/
def classOf (g : Graph) (id : NodeId) : NodeClass :=
  match g.kindOf id with
  | some .file => .file
  | some .port => .port
  | some .network | some .gateway => .net
  | some .router => .router
  | some .iroh | some .veilid | some .multicast => .uplink
  | some .capture => .capture
  | some .clipboard => .clipboard
  | some .api => .api
  | some .midiIn => .midiSource
  | some .midiOut => .midiSink
  | some .hostService => .hostSvc
  | some .boundary =>
    match g.boundaryPorts.lookup id with
    | some p => .boundary p.dir p.kind
    | none => .other
  | some .group => .instance_
  | some .app | some .note | none => .other

/-! ## Wires -/

/-- Replace one link list. -/
def setLinks (g : Graph) (r : WireRel) (links : List Pair) : Graph :=
  { g with links := Function.update g.links r links }

/-- Toggle a wire of relation `r` by the relation's own rule: binds and MIDI are
plain pairs, every other relation has one destination per source, and a router is
the one net member that may be on several networks. -/
def toggle (g : Graph) (r : WireRel) (a b : NodeId) : Graph :=
  g.setLinks r <|
    match r with
    | .connection | .midi => Wiring.togglePair (g.links r) a b
    | .netLink =>
      if g.kindOf a = some .router then Wiring.togglePair (g.links r) a b
      else Wiring.toggleUnique (g.links r) a b
    | _ => Wiring.toggleUnique (g.links r) a b

/-- Drop the wires of relation `r` that start at `id`. -/
def dropFrom (g : Graph) (r : WireRel) (id : NodeId) : Graph :=
  g.setLinks r ((g.links r).filter fun l => l.1 ≠ id)

/-- Drop the wires of relation `r` that end at `id`. -/
def dropTo (g : Graph) (r : WireRel) (id : NodeId) : Graph :=
  g.setLinks r ((g.links r).filter fun l => l.2 ≠ id)

/-- Drop the wires of relation `r` that touch `id`. -/
def dropOn (g : Graph) (r : WireRel) (id : NodeId) : Graph :=
  g.setLinks r ((g.links r).filter fun l => l.1 ≠ id && l.2 ≠ id)

/-- Drop mount-path overrides for binds that no longer exist. -/
def pruneMountPaths (g : Graph) : Graph :=
  { g with mountPaths := Table.retain (fun pair _ => g.connections.contains pair) g.mountPaths }

/-- Drop container-port mappings for serve wires that no longer exist. -/
def pruneServePorts (g : Graph) : Graph :=
  { g with servePorts := Table.retain (fun pair _ => g.serveLinks.contains pair) g.servePorts }

/-- Drop the channels of MIDI wires that no longer exist. -/
def pruneMidiChannels (g : Graph) : Graph :=
  { g with midiChannels := Table.retain (fun pair _ => g.midiLinks.contains pair) g.midiChannels }

/-! ## Private nets -/

/-- Canonicalize an unordered node pair as `(min, max)`. -/
def canonicalPair (a b : NodeId) : Pair := if a < b then (a, b) else (b, a)

/-- Mint and join a private net: both apps toggle onto it, then it is recorded. -/
def mintNet (g : Graph) (key : Pair) (net : NodeId) : Graph :=
  let g := g.toggle .netLink key.1 net
  let g := g.toggle .netLink key.2 net
  { g with appLinkNets := g.appLinkNets.insert key net }

/-- Part a private net: it is forgotten, then both apps toggle it. -/
def dropNet (g : Graph) (key : Pair) : Graph :=
  match g.appLinkNets.lookup key with
  | none => g
  | some net =>
    let g := { g with appLinkNets := g.appLinkNets.erase key }
    let g := g.toggle .netLink key.1 net
    g.toggle .netLink key.2 net

/-- Part `id`'s side of the private net of `key`: it is forgotten, then the other
app toggles it. -/
def partNet (g : Graph) (id : NodeId) (key : Pair) : Graph :=
  match g.appLinkNets.lookup key with
  | none => g
  | some net =>
    let g := { g with appLinkNets := g.appLinkNets.erase key }
    g.toggle .netLink (if key.1 = id then key.2 else key.1) net

/-- The keys of the private nets `id` is a side of. -/
def privateKeys (g : Graph) (id : NodeId) : List Pair :=
  g.appLinkNets.keys.filter fun key => key.1 = id || key.2 = id

/-- Part `id`'s side of every private net it holds, in the order the map yields
them. -/
def pruneAppLinkNet (order : List Pair → List Pair) (g : Graph) (id : NodeId) : Graph :=
  (order (g.privateKeys id)).foldl (fun g key => g.partNet id key) g

/-! ## Placing and forgetting -/

/-- Record a node's base fact and the side-table entries of its kind. -/
def place (g : Graph) (id ws : NodeId) (pos size : Vec2) (payload : Payload) : Graph :=
  let g := { g with nodes := g.nodes.insert id { kind := payload.kind, ws, pos, size } }
  match payload with
  | .app dep name args token =>
    let g := { g with
      nodeDeps := g.nodeDeps.insert id dep
      nodeNames := g.nodeNames.insert id name
      nodeArgs := g.nodeArgs.insert id args }
    match token with
    | some t => { g with nodeTokens := g.nodeTokens.insert id t }
    | none => g
  | .file f => { g with fileNodes := g.fileNodes.insert id f }
  | .port p => { g with hostPorts := g.hostPorts.insert id p }
  | .iroh secret => { g with irohSecrets := g.irohSecrets.insert id secret }
  | .veilid identity => { g with veilidIds := g.veilidIds.insert id identity }
  | .note text => { g with noteText := g.noteText.insert id text }
  | .midiIn device => { g with midiIns := g.midiIns.insert id device }
  | .midiOut device => { g with midiOuts := g.midiOuts.insert id device }
  | .hostService svc => { g with hostServices := g.hostServices.insert id svc }
  | .multicast cfg => { g with multicasts := g.multicasts.insert id cfg }
  | .boundary port => { g with boundaryPorts := g.boundaryPorts.insert id port }
  | .group grp => { g with groups := g.groups.insert id grp }
  | .network | .gateway | .router | .capture | .clipboard | .api => g

/-- Drop a node's base record and the side-table entries keyed by it, and every
group line that names it. -/
def forget (g : Graph) (id : NodeId) : Graph :=
  { g with
    nodes := g.nodes.erase id
    pos3d := g.pos3d.erase id
    hiddenPanel3d := g.hiddenPanel3d.erase id
    nodeArgs := g.nodeArgs.erase id
    nodeDeps := g.nodeDeps.erase id
    nodeNames := g.nodeNames.erase id
    fileNodes := g.fileNodes.erase id
    hostPorts := g.hostPorts.erase id
    nodeTokens := g.nodeTokens.erase id
    irohSecrets := g.irohSecrets.erase id
    veilidIds := g.veilidIds.erase id
    noteText := g.noteText.erase id
    hostServices := g.hostServices.erase id
    boundaryPorts := g.boundaryPorts.erase id
    groups := Table.mapValues (fun grp => grp.dropNode id) g.groups }

/-- The wires each kind's removal strips, before the node is forgotten. -/
def dropWires (order : List Pair → List Pair) (g : Graph) (id : NodeId) : Graph :=
  match g.kindOf id with
  | some .file => (g.dropFrom .connection id).pruneMountPaths
  | some .port => (g.dropTo .serve id).pruneServePorts
  | some .network | some .gateway => g.dropTo .netLink id
  | some .iroh | some .veilid | some .multicast | some .hostService | some .router =>
    g.dropFrom .netLink id
  | some .app =>
    let g := ((g.dropTo .connection id).dropFrom .netLink id).dropOn .midi id
    let g := ((g.pruneAppLinkNet order id).dropOn .serve id).dropFrom .clipboardLink id
    g.pruneMountPaths.pruneMidiChannels.pruneServePorts
  | some .capture => g.dropTo .captureLink id
  | some .clipboard => g.dropTo .clipboardLink id
  | some .api => g.dropTo .apiLink id
  | some .midiIn | some .midiOut => (g.dropOn .midi id).pruneAppLinkNet order id
  | some .boundary =>
    let g := ((g.dropOn .connection id).dropOn .midi id).pruneAppLinkNet order id
    let g := ((g.dropOn .captureLink id).dropOn .clipboardLink id).dropOn .apiLink id
    g.pruneMountPaths
  | some .group | some .note | none => g

/-- The side table each kind's removal clears itself. -/
def dropOwn (g : Graph) (id : NodeId) : Graph :=
  match g.kindOf id with
  | some .port => { g with hostPorts := g.hostPorts.erase id }
  | some .multicast => { g with multicasts := g.multicasts.erase id }
  | some .midiIn => { g with midiIns := g.midiIns.erase id }
  | some .midiOut => { g with midiOuts := g.midiOuts.erase id }
  | some .group => { g with groups := g.groups.erase id }
  | _ => g

/-- What a removal does to the graph before the node is forgotten. -/
def unwire (order : List Pair → List Pair) (g : Graph) (id : NodeId) : Graph :=
  (g.dropWires order id).dropOwn id

/-- Remove a node by kind; an unknown id is left alone. -/
def remove (order : List Pair → List Pair) (g : Graph) (id : NodeId) : Graph :=
  if id ∈ g.nodes then (g.unwire order id).forget id else g

end Graph

/-! ## Edits -/

/-- One change of one table, for a node that is already placed. -/
inductive Update where
  | pos (pos : Vec2)
  | size (size : Vec2)
  | pos3d (pose : Pose)
  | showPanel
  | hidePanel
  | args (args : List String)
  | port (port : Nat)
  | text (text : String)
  | bindPath (path name : String)
  | midiIn (device : String)
  | midiOut (device : String)
  | serviceName (name : String)
  | serviceTarget (target : String)
  | persist (on : Bool)
  | token (token : Bytes)
  | noToken
  | multicast (cfg : Mcast)
  | group (g : GroupNode)
  deriving DecidableEq, Repr

/-- Everything that is ever done to the graph. -/
inductive Edit where
  | toggle (r : WireRel) (a b : NodeId)
  | mintNet (key : Pair) (net : NodeId)
  | dropNet (key : Pair)
  | place (id ws : NodeId) (pos size : Vec2) (payload : Payload)
  /-- The pose and the hidden panel of a snapshot, restored after its node. -/
  | pose (id : NodeId) (pos3d : Option Pose) (panel3d : Bool)
  | remove (order : List Pair → List Pair) (id : NodeId)
  | update (id : NodeId) (u : Update)
  | mountPath (pair : Pair) (path : Option String)
  | servePort (pair : Pair) (port : Option Nat)
  | midiChannel (pair : Pair) (channel : Option Nat)
  | pruneMountPaths
  | pruneServePorts
  | pruneMidiChannels
  | keepTokens (verifies : Bytes → Bool)
  | addTab (index : Nat) (id : NodeId)
  | removeTab (id : NodeId)
  | nameTab (id : NodeId) (name : String)

namespace Graph

/-- Insert or erase one row. -/
def setRow {α β : Type} [DecidableEq α] (t : Table α β) (key : α) : Option β → Table α β
  | some v => t.insert key v
  | none => t.erase key

/-- Rewrite the value under a key that is there. -/
def alter {α β : Type} [DecidableEq α] (t : Table α β) (key : α) (f : β → β) : Table α β :=
  match t.lookup key with
  | some v => t.insert key (f v)
  | none => t

/-- An update, with the source's own test that the node (or the row) is there. -/
def update (g : Graph) (id : NodeId) : Update → Graph
  | .pos pos => { g with nodes := alter g.nodes id fun rec => { rec with pos } }
  | .size size => { g with nodes := alter g.nodes id fun rec => { rec with size } }
  | .pos3d pose => if id ∈ g.nodes then { g with pos3d := g.pos3d.insert id pose } else g
  | .showPanel =>
    if id ∈ g.nodes then { g with hiddenPanel3d := g.hiddenPanel3d.erase id } else g
  | .hidePanel =>
    if id ∈ g.nodes then { g with hiddenPanel3d := g.hiddenPanel3d.insert id () } else g
  | .args args => if id ∈ g.nodes then { g with nodeArgs := g.nodeArgs.insert id args } else g
  | .port port => { g with hostPorts := alter g.hostPorts id fun _ => port }
  | .text text => { g with noteText := alter g.noteText id fun _ => text }
  | .bindPath path name =>
    { g with fileNodes := alter g.fileNodes id fun f =>
        match f with
        | .bind .. => .bind name path
        | volume => volume }
  | .midiIn device =>
    if g.kindOf id = some .midiIn then { g with midiIns := g.midiIns.insert id device } else g
  | .midiOut device =>
    if g.kindOf id = some .midiOut then { g with midiOuts := g.midiOuts.insert id device } else g
  | .serviceName name =>
    { g with hostServices := alter g.hostServices id fun svc => { svc with name } }
  | .serviceTarget target =>
    { g with hostServices := alter g.hostServices id fun svc => { svc with target } }
  | .persist on =>
    { g with fileNodes := alter g.fileNodes id fun f =>
        match f with
        | .volume name data _ => .volume name data on
        | bind => bind }
  | .token token => if id ∈ g.nodes then { g with nodeTokens := g.nodeTokens.insert id token } else g
  | .noToken => { g with nodeTokens := g.nodeTokens.erase id }
  | .multicast cfg =>
    if g.kindOf id = some .multicast then { g with multicasts := g.multicasts.insert id cfg } else g
  | .group grp => { g with groups := alter g.groups id fun _ => grp }

/-- Add a tab, unless it is there. -/
def addTab (g : Graph) (index : Nat) (id : NodeId) : Graph :=
  if id ∈ g.workspaces then g
  else { g with workspaces := g.workspaces.insertIdx (min index g.workspaces.length) id }

/-- Drop a tab and its name, unless it is the last one. -/
def removeTab (g : Graph) (id : NodeId) : Graph :=
  if g.workspaces.length ≤ 1 || id ∉ g.workspaces then g
  else { g with
    workspaces := g.workspaces.filter fun w => w ≠ id
    workspaceNames := g.workspaceNames.erase id }

end Graph

/-- What an edit does. -/
def Edit.apply : Edit → Graph → Graph
  | toggle r a b, g => g.toggle r a b
  | mintNet key net, g => g.mintNet key net
  | dropNet key, g => g.dropNet key
  | place id ws pos size payload, g => g.place id ws pos size payload
  | pose id pos3d panel3d, g =>
    let g := match pos3d with
      | some p => { g with pos3d := g.pos3d.insert id p }
      | none => g
    if panel3d then g else { g with hiddenPanel3d := g.hiddenPanel3d.insert id () }
  | remove order id, g => g.remove order id
  | update id u, g => g.update id u
  | mountPath pair path, g => { g with mountPaths := Graph.setRow g.mountPaths pair path }
  | servePort pair port, g => { g with servePorts := Graph.setRow g.servePorts pair port }
  | midiChannel pair channel, g =>
    { g with midiChannels := Graph.setRow g.midiChannels pair channel }
  | pruneMountPaths, g => g.pruneMountPaths
  | pruneServePorts, g => g.pruneServePorts
  | pruneMidiChannels, g => g.pruneMidiChannels
  | keepTokens verifies, g =>
    { g with nodeTokens := Table.retain (fun _ token => verifies token) g.nodeTokens }
  | addTab index id, g => g.addTab index id
  | removeTab id, g => g.removeTab id
  | nameTab id name, g => { g with workspaceNames := g.workspaceNames.insert id name }

/-! ## Histories -/

/-- The graph `edits` make of `start`, oldest first. -/
def replay (start : Graph) (edits : List Edit) : Graph := edits.foldl (fun g e => e.apply g) start

/-- A graph and the edits that made it from `start`. -/
structure History (start : Graph) where
  edits : List Edit
  graph : Graph
  replayed : graph = replay start edits

namespace History

variable {start : Graph}

/-- Nothing done yet. -/
def empty (start : Graph) : History start := { edits := [], graph := start, replayed := rfl }

/-- Apply one more edit. -/
def perform (h : History start) (e : Edit) : History start where
  edits := h.edits ++ [e]
  graph := e.apply h.graph
  replayed := by rw [h.replayed, replay, replay, List.foldl_append]; rfl

/-- Every edit of the history met `ok` in the graph it was applied to. -/
def Every (ok : Graph → Edit → Prop) (h : History start) : Prop :=
  ∀ before e after, h.edits = before ++ e :: after → ok (replay start before) e

/-- **The rule of histories.** What holds of the first graph, and is kept by every
edit that meets `ok`, holds of the graph of a history whose edits all met it. -/
theorem every_keeps {ok : Graph → Edit → Prop} {P : Graph → Prop} (first : P start)
    (turn : ∀ g e, ok g e → P g → P (e.apply g)) (h : History start) (met : h.Every ok) :
    P h.graph := by
  have all : ∀ done rest : List Edit, h.edits = done ++ rest → P (replay start done) →
      P (replay start h.edits) := by
    intro done rest
    induction rest generalizing done with
    | nil =>
      intro split here
      rw [split, List.append_nil]
      exact here
    | cons e rest ih =>
      intro split here
      refine ih (done ++ [e]) (by rw [split]; simp) ?_
      rw [replay, List.foldl_append]
      exact turn _ e (met done e rest split) here
  rw [h.replayed]
  exact all [] h.edits rfl first

/-- A test of every edit in the graph it is applied to. -/
def checkFrom (test : Graph → Edit → Bool) : Graph → List Edit → Bool
  | _, [] => true
  | g, e :: rest => test g e && checkFrom test (e.apply g) rest

def check (test : Graph → Edit → Bool) (h : History start) : Bool := checkFrom test start h.edits

/-- A condition that a test decides holds throughout once the test passes. -/
theorem every_of_check {ok : Graph → Edit → Prop} {test : Graph → Edit → Bool}
    (sound : ∀ g e, test g e = true → ok g e) (h : History start) (passes : h.check test = true) :
    h.Every ok := by
  have all : ∀ (g : Graph) (done rest : List Edit), checkFrom test g (done ++ rest) = true →
      checkFrom test (replay g done) rest = true := by
    intro g done
    induction done generalizing g with
    | nil => intro rest passes; exact passes
    | cons e done ih =>
      intro rest passes
      rw [List.cons_append, checkFrom, Bool.and_eq_true] at passes
      exact ih (e.apply g) rest passes.2
  intro before e after split
  rw [check, split] at passes
  have here := all start before (e :: after) passes
  rw [checkFrom, Bool.and_eq_true] at here
  exact sound _ e here.1

end History

end Wk
