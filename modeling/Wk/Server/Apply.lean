/-
# Wk.Server.Apply -- commands, undo, ticks, load and save

`apply` is the single entry point for mutations: it refuses structural edits inside
an instance, records an inverse and dispatches.  `Server.new` loads a document,
`save` projects the state back to one, and `run` is a whole session: a load
followed by any sequence of commands and ticks, each with the host it met.
-/
import Wk.Server.Instances

namespace Wk

open Wk.Library

set_option autoImplicit false

namespace Server

variable {start : Graph}

/-! ## Duplicating -/

/-- Duplicate a node into the same workspace at an offset; wiring is not copied. -/
def duplicate (w : World) (h : Host) (s : Server start) (id : NodeId) : Server start :=
  match s.graph.nodes.lookup id with
  | none => s
  | some rec =>
    let ws := rec.ws
    let off := w.offset rec.pos
    match s.appNode id with
    | some node =>
      match (s.graph.nodeDeps.lookup id).bind fun want =>
          s.graph.available.find? fun d => d.name = want with
      | none => s
      | some dep =>
        let args := (s.graph.nodeArgs.lookup id).getD (effectiveArgs w dep)
        let (newId, s) := s.allocId w
        let name := s.generatedNodeName w newId
        let s := { s with runtime := s.runtime.spawn newId name node.options }
        s.place newId ws off rec.size (.app dep.name name args none)
    | none =>
      match s.graph.fileNodes.lookup id with
      | some (.volume ..) => s.addVirtualFile w off ws
      | some (.bind ..) => s.addHostMappedFile w off ws
      | none =>
        match rec.kind with
        | .port => s.addHostPort w off ws
        | .gateway => s.addPlain w off fileSize ws .gateway
        | .network => s.addPlain w off fileSize ws .network
        | .iroh => s.addIrohNode w h off ws
        | .veilid => s.addVeilidNode w h off ws
        | .group =>
          match s.graph.groups.lookup id with
          | none => s
          | some grp =>
            let (newId, s) := s.allocId w
            (s.place newId ws off rec.size (.group grp)).expandGroup w h ws newId
        | _ => s

/-! ## Undo -/

/-- Whether an entry continues the run of edits the newest one began. -/
def coalesces : Option Undo → Undo → Bool
  | some (.pos a _), .pos b _ => a = b
  | some (.size a _), .size b _ => a = b
  | some (.args a _), .args b _ => a = b
  | some (.text a _), .text b _ => a = b
  | _, _ => false

/-- Push an inverse, coalescing a run of same-node edits and forgetting the oldest
past the cap. -/
def record (s : Server start) (u : Undo) : Server start :=
  if coalesces s.undo.head? u then s else { s with undo := (u :: s.undo).take undoCap }

/-- Bring a removed node back with the same id, then re-establish its wiring. -/
def recreate (w : World) (h : Host) (s : Server start) (snap : Snapshot) : Server start :=
  let s := s.materialize w h snap.ws snap.node snap.fileData
  let s := s.rewire w h snap.wires
  let s := snap.boundary.foldl (fun s line => s.setBoundaryWire w h line true) s
  if snap.node.kind.isGroup then s.expandGroup w h snap.ws snap.node.id else s

/-- Capture a whole tab for undo. -/
def snapshotWorkspace (w : World) (h : Host) (s : Server start) (ws : NodeId) : Option WsSnapshot :=
  (s.graph.workspaces.findIdx? fun t => t = ws).map fun index =>
    { id := ws, index, name := s.graph.workspaceNames.lookup ws
      nodes := (h.ids (s.graph.nodes.keys.filter fun n =>
        (s.graph.nodes.lookup n).any fun rec => rec.ws = ws)).filterMap (s.snapshot w h) }

/-- Bring a removed tab back: its place, all its nodes, then their wiring, then its
instances. -/
def recreateWorkspace (w : World) (h : Host) (s : Server start) (snap : WsSnapshot) : Server start :=
  let s := s.perform (.addTab snap.index snap.id)
  let s := match snap.name with
    | some name => s.perform (.nameTab snap.id name)
    | none => s
  let s := snap.nodes.foldl (fun s n => s.materialize w h n.ws n.node n.fileData) s
  let s := snap.nodes.foldl (fun s n => s.rewire w h n.wires) s
  snap.nodes.foldl (fun s n =>
    if n.node.kind.isGroup then s.expandGroup w h n.ws n.node.id else s) s

/-- Apply one recorded inverse. -/
def applyUndo (w : World) (h : Host) (s : Server start) (u : Undo) : Server start :=
  match u with
  | .pos id pos => s.perform (.update id (.pos pos))
  | .size id size => s.perform (.update id (.size size))
  | .args id args => if s.nodeExists id then s.setNodeArgs id (" ".intercalate args) else s
  | .text id text => s.perform (.update id (.text text))
  | .port id port =>
    match s.graph.hostPorts.lookup id with
    | some cur => s.changePort id ((port : Int) - cur)
    | none => s
  | .rewireUnique src newDst oldDst =>
    let s :=
      if s.nodeExists src && s.nodeExists newDst && s.graph.wired src newDst then
        s.connectToggle w h src newDst
      else s
    match oldDst with
    | some old =>
      if s.nodeExists src && s.nodeExists old && !s.graph.wired src old then
        s.connectToggle w h src old
      else s
    | none => s
  | .wire a b => if s.nodeExists a && s.nodeExists b then s.connectToggle w h a b else s
  | .token id old =>
    if s.nodeExists id then
      let s := s.perform (.update id (match old with
        | some token => .token token
        | none => .noToken))
      { s with runtime := s.runtime.writeTokenFile s.nodeAuth s.graph id }
    else s
  | .uncreate ids => ids.foldl (fun s id => if s.nodeExists id then s.removeAny w h id else s) s
  | .boundary line wired => s.setBoundaryWire w h line wired
  | .recreate snap => s.recreate w h snap
  | .dropWorkspace id => s.removeWorkspace w h id
  | .recreateWorkspace snap => s.recreateWorkspace w h snap

/-! ## Commands -/

/-- Perform a command's mutation, recording nothing. -/
def dispatch (w : World) (h : Host) (s : Server start) (cmd : Command) : Server start :=
  match cmd with
  | .create (.node kind pos ws) => s.createNode w h kind pos ws
  | .create (.hostMount path pos ws) => s.addHostMount w h path pos ws
  | .create (.wire a b) => if s.graph.wired a b then s else s.connectToggle w h a b
  | .create (.workspace id) => s.perform (.addTab s.graph.workspaces.length id)
  | .create (.boundary line) => s.setBoundaryWire w h line true
  | .update id patch => s.updateNode w h id patch
  | .delete (.boundary line) => s.setBoundaryWire w h line false
  | .delete (.node id) => s.removeAny w h id
  | .delete (.wire wire) => s.disconnectWire w h wire
  | .delete (.workspace id) => s.removeWorkspace w h id
  | .setMount volume app path => s.setMount w h volume app path
  | .setMidiChannel src dst channel => s.setMidiChannel src dst channel
  | .setMulticast id iface groups =>
    let iface := (iface.map trim).filter fun i => i ≠ ""
    s.setMulticastConfig h id { iface, groups }
  | .setServePort served hostport container => s.setServePort served hostport container
  | .setToken id token => s.setNodeToken w id token
  | .run id => { s with runtime := s.runtime.runNode w h s.nodeAuth s.graph id }
  -- Stopping halts the guest and leaves the node, its wiring and its record alone.
  | .stop _ => s
  | .duplicate id => s.duplicate w h id
  | .setView mode => { s with viewMode := (s.viewMode.1 + 1, mode) }
  | .undo =>
    match s.undo with
    | [] => s
    | u :: rest => ({ s with undo := rest } : Server start).applyUndo w h u

/-- Why a node inside an instance cannot be edited. -/
def inside (s : Server start) (id : NodeId) : Option String :=
  if s.isDerived id then
    let label := match s.graph.nodes.lookup id with
      | some rec => s.instanceLabel rec.ws
      | none => ""
    some s!"{NodeId.toText id} is inside instance {debugStr label}; edit the definition instead"
  else none

/-- Why this command must be refused, if its target is inside an instance. -/
def refuseStructuralEdit (s : Server start) (cmd : Command) : Option String :=
  match cmd with
  | .delete (.node id) | .duplicate id => s.inside id
  | .create (.wire a b) => (s.inside a).or (s.inside b)
  | .create (.boundary line) | .delete (.boundary line) =>
    (s.inside line.group).or (s.inside line.node)
  | .delete (.wire wire) => (s.inside wire.ends.1).or (s.inside wire.ends.2)
  | .create (.node _ _ ws) | .create (.hostMount _ _ ws) =>
    if ws ∈ s.instances then
      some s!"{NodeId.toText ws} is an instance; add the node to its definition instead"
    else none
  | _ => none

/-- The inverse recorded before a command is dispatched, for the commands whose
inverse is known beforehand. -/
def recordBefore (w : World) (h : Host) (s : Server start) (cmd : Command) : Server start :=
  match cmd with
  | .create (.wire a b) =>
    if s.graph.wired a b then s
    else match Wiring.classify a b (s.graph.classOf a) (s.graph.classOf b) with
      | some (.net app net) =>
        s.record (.rewireUnique app net
          ((s.graph.netLinks.find? fun l => l.1 = app).map Prod.snd))
      | some (.serve served hostport) =>
        s.record (.rewireUnique served hostport
          ((s.graph.serveLinks.find? fun l => l.1 = served).map Prod.snd))
      | _ => s.record (.wire a b)
  | .create (.workspace id) =>
    if id ∈ s.graph.workspaces then s else s.record (.dropWorkspace id)
  | .update id patch =>
    let rec? := s.graph.nodes.lookup id
    let s := match patch.pos, rec? with
      | some _, some rec => s.record (.pos id rec.pos)
      | _, _ => s
    let s := match patch.size, rec? with
      | some _, some rec => s.record (.size id rec.size)
      | _, _ => s
    let s := match patch.args with
      | some _ => s.record (.args id ((s.graph.nodeArgs.lookup id).getD []))
      | none => s
    let s := match patch.portDelta, s.graph.hostPorts.lookup id with
      | some _, some port => s.record (.port id port)
      | _, _ => s
    match patch.text, s.graph.noteText.lookup id with
    | some _, some text => s.record (.text id text)
    | _, _ => s
  | .delete (.node id) =>
    match s.snapshot w h id with
    | some snap => s.record (.recreate snap)
    | none => s
  | .delete (.wire wire) =>
    if s.wireExists wire then s.record (.wire wire.ends.1 wire.ends.2) else s
  | .delete (.workspace id) =>
    if 1 < s.graph.workspaces.length ∧ id ∈ s.graph.workspaces then
      match s.snapshotWorkspace w h id with
      | some snap => s.record (.recreateWorkspace snap)
      | none => s
    else s
  | .setToken id _ =>
    if s.graph.kindOf id = some .app then s.record (.token id (s.graph.nodeTokens.lookup id)) else s
  | _ => s

/-- Apply a client command, recording an inverse where the mutation is undoable. -/
def apply (w : World) (h : Host) (s : Server start) (cmd : Command) : Server start :=
  if (s.refuseStructuralEdit cmd).isSome then s
  else match cmd with
    -- Creates: run, then record removal of whatever nodes appeared.
    | .create (.node ..) | .create (.hostMount ..) | .duplicate _ =>
      let before := s.graph.nodes.keys
      let s := s.dispatch w h cmd
      let created := (h.ids s.graph.nodes.keys).filter fun id => id ∉ before
      if created = [] then s else s.record (.uncreate created)
    -- A boundary line: recorded after the fact, since the expansion may refuse it.
    | .create (.boundary line) | .delete (.boundary line) =>
      let before := s.boundaryWired line
      let s := s.dispatch w h cmd
      if s.boundaryWired line ≠ before then s.record (.boundary line before) else s
    | cmd => (s.recordBefore w h cmd).dispatch w h cmd

/-- One server step: reconcile any wiring that was pending on a loading node. -/
def tick (w : World) (h : Host) (s : Server start) : Server start :=
  let s := { s with runtime := s.runtime.drainPendingRun w h s.nodeAuth s.graph }
  let s := s.syncPendingAppWires w h
  let s := s.syncMounts w h
  let s := s.syncMidi
  let s := s.syncAppLinkNets w h
  s.syncServes

/-! ## Loading -/

/-- Spawn one workspace's nodes and re-apply its wiring; a node that does not come
up, and the wires on it, are kept aside. -/
def instantiate (w : World) (h : Host) (s : Server start) (saved : Workspace) : Server start :=
  let s := saved.nodes.foldl (fun s snap =>
    let s := s.materialize w h saved.id snap []
    if s.nodeExists snap.id then s else { s with unplaced := s.unplaced ++ [(saved.id, snap)] }) s
  let orphan := (s.unplaced.filter fun u => u.1 = saved.id).map fun u => u.2.id
  let lost := (wiresOf saved).filter fun wire => wire.2.1 ∈ orphan || wire.2.2 ∈ orphan
  let s := { s with unplacedWires := s.unplacedWires ++ lost.map fun wire => (saved.id, wire) }
  let s := (s.applyWires w h saved).1
  saved.nodes.foldl (fun s snap =>
    if snap.kind.isGroup then s.expandGroup w h saved.id snap.id else s) s

end Server

/-- The graph a document starts a server from: its tabs and its dependencies. -/
def Graph.ofDocument (doc : Document) : Graph where
  available := doc.dependencies
  workspaces := (doc.workspaces.filter fun ws => ws.tab).map Workspace.id
  workspaceNames := Table.ofRows ((doc.workspaces.filter fun ws => ws.tab).filterMap
    fun ws => ws.name.map fun name => (ws.id, name))

namespace Server

/-- A server that has not placed anything yet. -/
def fresh (doc : Document) : Server (Graph.ofDocument doc) where
  history := .empty _
  authored := doc.workspaces.zipIdx.filterMap fun ws =>
    if ws.1.tab then none else some (ws.2, ws.1)
  imports := doc.imports
  importedDeps := doc.importedDeps
  importedWorkspaces := doc.importedWorkspaces
  scratchTab := doc.scratchTab

/-- Create a server and instantiate every tab of the document. -/
def new (w : World) (h : Host) (doc : Document) :
    Except Instancing.ExpandError (Server (Graph.ofDocument doc)) :=
  (Instancing.expand w.digests doc).map fun _ =>
    (doc.workspaces.filter fun ws => ws.tab).foldl (instantiate w h) (fresh doc)

/-! ## Saving -/

variable {start : Graph}

/-- Every wire an expansion made. -/
def derivedWires (s : Server start) : List (WireRel × NodeId × NodeId) :=
  (Table.values s.instances).flatMap InstanceRec.wires

/-- The wires of one relation that belong to tab `ws` and to no expansion, and those
kept aside for it. -/
def wsWires (s : Server start) (ws : NodeId) (r : WireRel) : List Pair :=
  let live := (s.graph.links r).filter fun l =>
    ((s.graph.nodes.lookup l.1).any fun rec => rec.ws = ws) && !s.isDerived l.2 &&
      (r, l.1, l.2) ∉ s.derivedWires
  let kept := (s.unplacedWires.filter fun u => u.1 = ws && u.2.1 = r).map fun u => u.2.2
  match r with
  | .netLink => (live ++ kept).filter fun l => !s.isPrivateLinkNet l.2
  | _ => live ++ kept

/-- The overrides of a tab's own wires. -/
def overridesOf {β : Type} (t : Table Pair β) (links : List Pair) : Table Pair β :=
  Table.ofRows (links.filterMap fun pair => (t.lookup pair).map fun v => (pair, v))

/-- One tab as the file writes it. -/
def saveWorkspace (w : World) (s : Server start) (ws : NodeId) : Workspace :=
  let ids := (s.graph.nodes.keys.filter fun n =>
    (s.graph.nodes.lookup n).any fun rec => rec.ws = ws).insertionSort fun a b =>
      let rank (id : NodeId) := (((s.graph.kindOf id).map Kind.rank).getD 0)
      rank a < rank b ∨ (rank a = rank b ∧ a ≤ b)
  { id := ws
    name := s.graph.workspaceNames.lookup ws
    tab := true
    nodes := ids.filterMap (s.nodeSnap w) ++ (s.unplaced.filter fun u => u.1 = ws).map Prod.snd
    links := s.wsWires ws
    mountPaths := overridesOf s.graph.mountPaths (s.wsWires ws .connection)
    servePorts := overridesOf s.graph.servePorts (s.wsWires ws .serve)
    midiChannels := overridesOf s.graph.midiChannels (s.wsWires ws .midi) }

/-- The document a save writes: the tabs (the invented one only once it holds
something), with the definitions spliced back where they were. -/
def save (w : World) (s : Server start) : Document where
  imports := s.imports
  dependencies := s.graph.available
  workspaces :=
    let tabs := (s.graph.workspaces.map (s.saveWorkspace w)).filter fun ws =>
      some ws.id ≠ s.scratchTab || ws.nodes ≠ []
    s.authored.foldl (fun workspaces entry =>
      workspaces.insertIdx (min entry.1 workspaces.length) entry.2) tabs
  importedDeps := s.importedDeps
  importedWorkspaces := s.importedWorkspaces
  scratchTab := s.scratchTab

end Server

/-! ## Sessions -/

/-- One thing that happens to a running server, with what the host answers then. -/
inductive Step where
  | command (h : Host) (cmd : Command)
  | tick (h : Host)
  | auth (h : Host) (base : Bytes)

namespace Server

variable {start : Graph}

def step (w : World) (s : Server start) : Step → Server start
  | .command h cmd => s.apply w h cmd
  | .tick h => s.tick w h
  | .auth h base => s.setNodeAuth w h base

/-- A session: load the document, then take the steps. -/
def run (w : World) (h : Host) (doc : Document) (steps : List Step) :
    Except Instancing.ExpandError (Server (Graph.ofDocument doc)) :=
  (new w h doc).map fun s => steps.foldl (step w) s

end Server

end Wk
