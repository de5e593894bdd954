/-
# Wk.Server.Nodes -- creating, restoring and projecting nodes

Every kind is created under a freshly minted id by its own `add…`, restored from a
snapshot by `materialize` (load and undo share it), and projected back by
`nodeSnap` (save and undo share it).
-/
import Wk.Server.Wires

namespace Wk

open Wk.Library

set_option autoImplicit false

/-- The bit patterns of 130.0, 44.0, 220.0, 130.0, 360.0 and 260.0. -/
def fileSize : Vec2 := (0x43020000, 0x42300000)
def noteSize : Vec2 := (0x435C0000, 0x43020000)
def appSize : Vec2 := (0x43B40000, 0x43820000)

namespace Server

variable {start : Graph}

/-- A dependency's default launch args: its own, or its image's. -/
def effectiveArgs (w : World) (dep : Dependency) : List String :=
  if dep.args ≠ [] then dep.args
  else match dep.source with
    | .path _ => []
    | source => w.imageArgs source

/-! ## Creating -/

/-- Record a node's base fact and its kind's payload. -/
def place (s : Server start) (id ws : NodeId) (pos size : Vec2) (payload : Payload) : Server start :=
  s.perform (.place id ws pos size payload)

/-- Create a node that needs nothing but its payload, under a fresh id. -/
def addPlain (w : World) (s : Server start) (pos size : Vec2) (ws : NodeId) (payload : Payload) :
    Server start :=
  let (id, s) := s.allocId w
  s.place id ws pos size payload

/-- Launch a dependency as a new app node. -/
def launch (w : World) (s : Server start) (dep : Dependency) (pos : Vec2) (ws : NodeId) :
    Server start :=
  let (id, s) := s.allocId w
  let name := s.generatedNodeName w id
  let s := { s with runtime := s.runtime.spawn id name [] }
  let s := s.place id ws pos appSize (.app dep.name name dep.args none)
  { s with runtime := s.runtime.writeTokenFile s.nodeAuth s.graph id }

/-- Create a new, empty in-memory Volume node. -/
def addVirtualFile (w : World) (s : Server start) (pos : Vec2) (ws : NodeId) : Server start :=
  let s := { s with fileSeq := (s.fileSeq + 1) % 2 ^ 32 }
  let (id, s) := s.allocId w
  let (cell, rt) := s.runtime.newCell []
  let s := { s with runtime := rt }
  s.place id ws pos fileSize (.file (.volume s!"file{s.fileSeq}" cell false))

/-- Create a BindMount node backed by a fresh host file. -/
def addHostMappedFile (w : World) (s : Server start) (pos : Vec2) (ws : NodeId) : Server start :=
  let s := { s with hostSeq := (s.hostSeq + 1) % 2 ^ 32 }
  let (id, s) := s.allocId w
  s.place id ws pos fileSize (.file (.bind s!"host{s.hostSeq}" s!"host{s.hostSeq}"))

/-- Create a BindMount node already pointed at a path. -/
def addHostMount (w : World) (h : Host) (s : Server start) (path : String) (pos : Vec2)
    (ws : NodeId) : Server start :=
  (s.addPlain w pos fileSize ws (.file (.bind (hostFileName path) path))).syncMounts w h

/-- Create a HostPort node with the next localhost port. -/
def addHostPort (w : World) (s : Server start) (pos : Vec2) (ws : NodeId) : Server start :=
  let (id, s) := s.allocId w
  let port := s.nextPort
  let s := { s with nextPort := max ((s.nextPort + 1) % 2 ^ 16) 8080 }
  s.place id ws pos fileSize (.port port)

/-- Open (or reopen) the hardware device of a MidiIn node, keeping its resolved
name. -/
def openMidiDevice (h : Host) (s : Server start) (id : NodeId) (want : String) : Server start :=
  match h.openMidi id want with
  | some name => s.perform (.update id (.midiIn name))
  | none => s

def openMidiOutDevice (h : Host) (s : Server start) (id : NodeId) (want : String) : Server start :=
  match h.openMidiOutput id want with
  | some name => s.perform (.update id (.midiOut name))
  | none => s

def addMidiInNode (w : World) (h : Host) (s : Server start) (pos : Vec2) (ws : NodeId) :
    Server start :=
  let (id, s) := s.allocId w
  (s.place id ws pos fileSize (.midiIn "")).openMidiDevice h id ""

def addMidiOutNode (w : World) (h : Host) (s : Server start) (pos : Vec2) (ws : NodeId) :
    Server start :=
  let (id, s) := s.allocId w
  (s.place id ws pos fileSize (.midiOut "")).openMidiOutDevice h id ""

/-- Create (or restore) a Multicast bridge; one that does not start places
nothing. -/
def createMulticast (h : Host) (s : Server start) (id : NodeId) (cfg : Mcast) (pos size : Vec2)
    (ws : NodeId) : Server start :=
  if h.multicastBridge id cfg then s.place id ws pos size (.multicast cfg) else s

/-- Create (or restore) an Iroh uplink. -/
def createUplink (h : Host) (s : Server start) (id : NodeId) (secret : Option Bytes)
    (pos size : Vec2) (ws : NodeId) : Server start :=
  match h.uplink id secret with
  | some secret => s.place id ws pos size (.iroh secret)
  | none => s

/-- Create (or restore) a Veilid uplink. -/
def createVeilidUplink (h : Host) (s : Server start) (id : NodeId) (identity : Option String)
    (pos size : Vec2) (ws : NodeId) : Server start :=
  match h.veilidUplink id identity with
  | some identity => s.place id ws pos size (.veilid identity)
  | none => s

def addMulticastNode (w : World) (h : Host) (s : Server start) (pos : Vec2) (ws : NodeId) :
    Server start :=
  let (id, s) := s.allocId w
  s.createMulticast h id {} pos fileSize ws

def addIrohNode (w : World) (h : Host) (s : Server start) (pos : Vec2) (ws : NodeId) :
    Server start :=
  let (id, s) := s.allocId w
  s.createUplink h id none pos fileSize ws

def addVeilidNode (w : World) (h : Host) (s : Server start) (pos : Vec2) (ws : NodeId) :
    Server start :=
  let (id, s) := s.allocId w
  s.createVeilidUplink h id none pos fileSize ws

/-- Create one node of the asked kind. -/
def createNode (w : World) (h : Host) (s : Server start) (kind : NodeKind) (pos : Vec2)
    (ws : NodeId) : Server start :=
  match kind with
  | .app dep =>
    match s.graph.available[dep]? with
    | some dep => s.launch w dep pos ws
    | none => s
  | .volume => s.addVirtualFile w pos ws
  | .bindMount => s.addHostMappedFile w pos ws
  | .port => s.addHostPort w pos ws
  | .network => s.addPlain w pos fileSize ws .network
  | .gateway => s.addPlain w pos fileSize ws .gateway
  | .router => s.addPlain w pos fileSize ws .router
  | .iroh => s.addIrohNode w h pos ws
  | .veilid => s.addVeilidNode w h pos ws
  | .note => s.addPlain w pos noteSize ws (.note "note")
  | .capture => s.addPlain w pos fileSize ws .capture
  | .clipboard => s.addPlain w pos fileSize ws .clipboard
  | .api => s.addPlain w pos fileSize ws .api
  | .midiIn => s.addMidiInNode w h pos ws
  | .midiOut => s.addMidiOutNode w h pos ws
  | .hostService =>
    s.addPlain w pos fileSize ws (.hostService { name := "host", target := "127.0.0.1:8080" })
  | .multicast => s.addMulticastNode w h pos ws

/-! ## Updating -/

/-- Set a node's launch args from a whitespace-separated string. -/
def setNodeArgs (s : Server start) (id : NodeId) (text : String) : Server start :=
  if s.nodeExists id then s.perform (.update id (.args (splitWhitespace text))) else s

/-- Set a HostPort's localhost port. -/
def setHostPort (s : Server start) (id : NodeId) (port : Nat) : Server start :=
  match s.graph.hostPorts.lookup id with
  | none => s
  | some cur =>
    if port = cur || port = 0 then s
    else
      let s := s.perform (.update id (.port port))
      let s := { s with nextPort := max s.nextPort (min (port + 1) 65535) }
      s.syncServes

/-- Nudge a HostPort's localhost port, in 32-bit arithmetic and clamped. -/
def changePort (s : Server start) (id : NodeId) (delta : Int) : Server start :=
  match s.graph.hostPorts.lookup id with
  | none => s
  | some cur =>
    let moved := ((cur : Int) + delta).bmod (2 ^ 32)
    s.setHostPort id (max 1 (min moved 65535)).toNat

/-- Point a MidiIn or MidiOut node at a device. -/
def setMidiDevice (h : Host) (s : Server start) (id : NodeId) (want : String) : Server start :=
  match s.graph.kindOf id with
  | some .midiIn => (s.perform (.update id (.midiIn want))).openMidiDevice h id want
  | some .midiOut => (s.perform (.update id (.midiOut want))).openMidiOutDevice h id want
  | _ => s

/-- Reconfigure a Multicast bridge, keeping the old configuration if the new one
does not start. -/
def setMulticastConfig (h : Host) (s : Server start) (id : NodeId) (cfg : Mcast) : Server start :=
  if s.graph.kindOf id ≠ some .multicast then s
  else
    let net := ((s.graph.netLinks.find? fun l => l.1 = id).map Prod.snd).getD id
    if h.multicastBridge net cfg then s.perform (.update id (.multicast cfg)) else s

/-- Apply one field of a patch, if present. -/
def patchField {α : Type} (s : Server start) (field : Option α) (f : Server start → α → Server start) :
    Server start :=
  match field with
  | some v => f s v
  | none => s

/-- A partial update to a node: only the present fields change. -/
def updateNode (w : World) (h : Host) (s : Server start) (id : NodeId) (patch : NodePatch) :
    Server start :=
  let s := s.patchField patch.pos fun s pos => s.perform (.update id (.pos pos))
  let s := s.patchField patch.pos3d fun s pose => s.perform (.update id (.pos3d pose))
  let s := s.patchField patch.panel3d fun s shown =>
    s.perform (.update id (if shown then .showPanel else .hidePanel))
  let s := s.patchField patch.size fun s size => s.perform (.update id (.size size))
  let s := s.patchField patch.args fun s args => s.setNodeArgs id args
  let s := s.patchField patch.portDelta fun s delta => s.changePort id delta
  let s := s.patchField patch.portSet fun s port => s.setHostPort id port
  let s := s.patchField patch.text fun s text => s.perform (.update id (.text text))
  let s := s.patchField patch.hostPath fun s path => s.setBindPath w h id path
  let s := s.patchField patch.midiDevice fun s device => s.setMidiDevice h id device
  let s := s.patchField patch.serviceName fun s name =>
    if trim name = "" then s else s.perform (.update id (.serviceName (trim name)))
  let s := s.patchField patch.serviceTarget fun s target =>
    s.perform (.update id (.serviceTarget (trim target)))
  s.patchField patch.persist fun s on => s.perform (.update id (.persist on))

/-! ## Restoring -/

/-- The token a snapshot restores: well-formed, not empty, and verified if there is
a key to verify it with. -/
def restoredToken (w : World) (s : Server start) (token : Option String) : Option Bytes :=
  ((token.bind hexBytes).filter fun t => t ≠ []).filter fun t => s.nodeAuth.isNone || w.verifies t

/-- The number after a generated file name's lead. -/
def nameNumber (lead name : String) : Option Nat := (stripLead lead name).bind parseU32

/-- Bring one snapshot's kind back; its pose and panel follow in `materialize`. -/
def materializeKind (w : World) (h : Host) (s : Server start) (ws : NodeId) (snap : NodeSnap)
    (fileData : Bytes) : Server start :=
  match snap.kind with
  | .app depName name options args token =>
    match s.graph.available.find? fun d => d.name = depName with
    | none => s
    | some dep =>
      let ident := name.getD (s.generatedNodeName w snap.id)
      let args := if args = [] then effectiveArgs w dep else args
      let s := { s with runtime := s.runtime.spawn snap.id ident options }
      let s := s.place snap.id ws snap.pos snap.size
        (.app dep.name ident args (s.restoredToken w token))
      { s with runtime := s.runtime.writeTokenFile s.nodeAuth s.graph snap.id }
  | .volume name persist =>
    let s := match nameNumber "file" name with
      | some num => { s with fileSeq := max s.fileSeq num }
      | none => s
    let data := if persist && fileData.isEmpty then h.sidecar snap.id else fileData
    let (cell, rt) := s.runtime.newCell data
    let s := { s with runtime := rt }
    s.place snap.id ws snap.pos snap.size (.file (.volume name cell persist))
  | .bindMount path =>
    let name := hostFileName path
    let s := match nameNumber "host" name with
      | some num => { s with hostSeq := max s.hostSeq num }
      | none => s
    s.place snap.id ws snap.pos snap.size (.file (.bind name path))
  | .port port =>
    let s := { s with nextPort := max s.nextPort (min (port + 1) 65535) }
    s.place snap.id ws snap.pos snap.size (.port port)
  | .net gateway => s.place snap.id ws snap.pos snap.size (if gateway then .gateway else .network)
  | .router => s.place snap.id ws snap.pos snap.size .router
  | .iroh secret peer =>
    let s := s.createUplink h snap.id (secret.bind secretBytes) snap.pos snap.size ws
    match peer with
    | some peer => s.setNodeArgs snap.id peer
    | none => s
  | .veilid secret peer =>
    let s := s.createVeilidUplink h snap.id secret snap.pos snap.size ws
    match peer with
    | some peer => s.setNodeArgs snap.id peer
    | none => s
  | .note text => s.place snap.id ws snap.pos snap.size (.note text)
  | .capture => s.place snap.id ws snap.pos snap.size .capture
  | .clipboard => s.place snap.id ws snap.pos snap.size .clipboard
  | .api => s.place snap.id ws snap.pos snap.size .api
  | .midiIn device =>
    (s.place snap.id ws snap.pos snap.size (.midiIn device)).openMidiDevice h snap.id device
  | .midiOut device =>
    (s.place snap.id ws snap.pos snap.size (.midiOut device)).openMidiOutDevice h snap.id device
  | .multicast iface groups =>
    s.createMulticast h snap.id { iface, groups } snap.pos snap.size ws
  | .hostService name target =>
    s.place snap.id ws snap.pos snap.size (.hostService { name, target })
  | .inPort name kind =>
    s.place snap.id ws snap.pos snap.size (.boundary { name, dir := .inward, kind })
  | .outPort name kind =>
    s.place snap.id ws snap.pos snap.size (.boundary { name, dir := .outward, kind })
  | .group definition name inWires outWires =>
    s.place snap.id ws snap.pos snap.size (.group { definition, name, inWires, outWires })

/-- Whether a snapshot is an app whose dependency is not in the list. -/
def unknownDependency (s : Server start) (snap : NodeSnap) : Bool :=
  match snap.kind with
  | .app depName .. => s.graph.available.all fun d => d.name ≠ depName
  | _ => false

/-- Materialize a node from its persisted shape into workspace `ws`.  An app of an
unknown dependency is skipped whole; for every other kind the pose and the hidden
panel are restored whether or not the node came up. -/
def materialize (w : World) (h : Host) (s : Server start) (ws : NodeId) (snap : NodeSnap)
    (fileData : Bytes) : Server start :=
  if s.unknownDependency snap then s
  else (s.materializeKind w h ws snap fileData).perform (.pose snap.id snap.pos3d snap.panel3d)

/-! ## Projecting -/

/-- An uplink node's dialed peer ticket, which rides its args. -/
def peerTicket (g : Graph) (id : NodeId) : Option String :=
  match g.nodeArgs.lookup id with
  | some (arg :: args) => some (" ".intercalate (arg :: args))
  | _ => none

/-- The persisted form of a node's kind. -/
def snapKind (w : World) (s : Server start) (id : NodeId) (kind : Kind) : Option SnapKind :=
  let g := s.graph
  match kind with
  | .app =>
    (s.appNode id).map fun node =>
      .app ((g.nodeDeps.lookup id).getD node.name)
        ((g.nodeNames.lookup id).filter fun name => name ≠ Nodename.generated w.digests id 0)
        node.options ((g.nodeArgs.lookup id).getD []) ((g.nodeTokens.lookup id).map bytesHex)
  | .file =>
    (g.fileNodes.lookup id).map fun f =>
      match f with
      | .volume name _ persist => .volume name persist
      | .bind _ path => .bindMount path
  | .port => (g.hostPorts.lookup id).map .port
  | .network => some (.net false)
  | .gateway => some (.net true)
  | .router => some .router
  | .iroh => some (.iroh ((g.irohSecrets.lookup id).map bytesHex) (peerTicket g id))
  | .veilid => some (.veilid (g.veilidIds.lookup id) (peerTicket g id))
  | .note => some (.note ((g.noteText.lookup id).getD ""))
  | .capture => some .capture
  | .clipboard => some .clipboard
  | .api => some .api
  | .midiIn => some (.midiIn ((g.midiIns.lookup id).getD ""))
  | .midiOut => some (.midiOut ((g.midiOuts.lookup id).getD ""))
  | .hostService => (g.hostServices.lookup id).map fun svc => .hostService svc.name svc.target
  | .multicast =>
    let m := (g.multicasts.lookup id).getD {}
    some (.multicast m.iface m.groups)
  | .boundary =>
    (g.boundaryPorts.lookup id).map fun p =>
      match p.dir with
      | .inward => .inPort p.name p.kind
      | .outward => .outPort p.name p.kind
  | .group =>
    (g.groups.lookup id).map fun grp => .group grp.definition grp.name grp.inWires grp.outWires

/-- Project a node into the persisted shape. -/
def nodeSnap (w : World) (s : Server start) (id : NodeId) : Option NodeSnap :=
  match s.graph.nodes.lookup id with
  | none => none
  | some rec =>
    (s.snapKind w id rec.kind).map fun kind =>
      { id, pos := rec.pos, size := rec.size, pos3d := s.graph.pos3d.lookup id
        panel3d := id ∉ s.graph.hiddenPanel3d, kind }

/-- A Volume's bytes; every other node has none. -/
def fileData (s : Server start) (id : NodeId) : Bytes :=
  match s.graph.fileNodes.lookup id with
  | some (.volume _ cell _) => (s.runtime.cells.lookup cell).getD []
  | _ => []

/-- Every group line that names a node. -/
def boundaryLines (g : Graph) (groups : List NodeId) (id : NodeId) : List BoundaryWire :=
  groups.flatMap fun group =>
    match g.groups.lookup group with
    | none => []
    | some grp =>
      [PortDir.inward, .outward].flatMap fun dir =>
        ((grp.lines dir).filter fun l => l.2 = id).map fun l =>
          { group, dir, port := l.1, node := l.2 }

/-- Capture everything needed to bring a node back after removal. -/
def snapshot (w : World) (h : Host) (s : Server start) (id : NodeId) : Option Snapshot :=
  match s.graph.nodes.lookup id, s.nodeSnap w id with
  | some rec, some node =>
    some {
      ws := rec.ws
      node
      fileData := s.fileData id
      wires := WireRel.all.flatMap fun r => (s.graph.links r).filter fun l => l.1 = id || l.2 = id
      boundary := boundaryLines s.graph (h.ids s.graph.groups.keys) id }
  | _, _ => none

end Server

end Wk
