/-
# Wk.Workspace.Write -- writing a document out as KDL nodes

A node is one line that leads with its name or path, then its id, over a block with its own
content first and its geometry after it.  What is at its default is left out.
-/
import Wk.Workspace.Read

namespace Wk

open Wk.Library

set_option autoImplicit false

/-! ## Lines -/

/-- A line with one string. -/
def strLine (key value : String) : KdlNode := .line key [.string value]

/-- A line with two float arguments. -/
def node2 (round : Rounding) (name : String) (v : Vec2) : KdlNode :=
  .line name [.float (round.widen v.1), .float (round.widen v.2)]

/-- A line `name "<id>" "<id>"` joining two nodes. -/
def pairKdl (name : String) (p : Pair) (more : Option KdlValue) : KdlNode :=
  .line name (.string (NodeId.toText p.1) :: .string (NodeId.toText p.2) :: more.toList)

/-! ## Placed nodes -/

namespace SnapKind

def keyword : SnapKind → String
  | app .. => "node"
  | volume .. => "volume"
  | bindMount _ => "bindmount"
  | port _ => "hostport"
  | net false => "network"
  | net true => "gateway"
  | router => "router"
  | iroh .. => "iroh"
  | veilid .. => "veilid"
  | note _ => "note"
  | capture => "capture"
  | clipboard => "clipboard"
  | api => "api"
  | midiIn _ => "midiin"
  | midiOut _ => "midiout"
  | hostService .. => "hostservice"
  | multicast .. => "multicast"
  | inPort .. => "inport"
  | outPort .. => "outport"
  | group .. => "group"

/-- Named kinds lead with the name, and a boundary port with its connection kind too. -/
def lead : SnapKind → List String
  | app name .. | volume name _ | bindMount name | midiIn name | midiOut name | hostService name _
  | group name .. => [name]
  | inPort name kind | outPort name kind => [name, kind.asStr]
  | _ => []

/-- A chosen name leads the block, for both kinds that can have one. -/
def chosen : SnapKind → Option String
  | app _ name .. | group _ name .. => name
  | _ => none

/-- The boundary wires of a group, by direction. -/
def wireLines (keyword : String) (wires : List (String × NodeId)) : KdlDocument :=
  wires.map fun w => .line keyword [.string w.1, .string (NodeId.toText w.2)]

/-- What the block says before the geometry. -/
def content : SnapKind → KdlDocument
  | iroh secret peer | veilid secret peer =>
    (secret.map (strLine "secret")).toList ++ (peer.map (strLine "peer")).toList
  | port p => [.line "port" [.integer p]]
  | note text => [strLine "text" text]
  | hostService _ target => [strLine "target" target]
  | multicast iface groups => (iface.map (strLine "iface")).toList ++ groups.map (strLine "group")
  | group _ _ inWires outWires => wireLines "in" inWires ++ wireLines "out" outWires
  -- only a persisted volume writes the flag; the default is ephemeral
  | volume _ true => [.line "persist" [.bool true]]
  | _ => []

/-- What an app's block says after the geometry. -/
def extras (round : Rounding) : SnapKind → KdlDocument
  | app _ _ options args token =>
    (if options = [] then [] else [.line "options" (options.map fun v => .float (round.widen v))]) ++
      (if args = [] then [] else [.line "args" (args.map .string)]) ++ (token.map (strLine "token")).toList
  | _ => []

end SnapKind

/-- The lines of a node's block. -/
def snapBlock (round : Rounding) (s : NodeSnap) : KdlDocument :=
  (s.kind.chosen.map (strLine "name")).toList ++ s.kind.content ++
    [node2 round "pos" s.pos, node2 round "size" s.size] ++
    (s.pos3d.map fun p => .line "pos3d" ([p.1, p.2.1, p.2.2.1, p.2.2.2].map fun v => .float (round.widen v))).toList ++
    -- only a hidden panel writes the flag; the default is shown
    (if s.panel3d then [] else [.line "panel3d" [.bool false]]) ++ s.kind.extras round

/-- Serialize one placed node under its kind's KDL node name. -/
def snapKdl (round : Rounding) (s : NodeSnap) : KdlNode :=
  { KdlNode.line s.kind.keyword ((s.kind.lead ++ [NodeId.toText s.id]).map .string) with
    children := some (snapBlock round s) }

/-! ## Workspaces -/

/-- The wires of one relation, with what rides along as a third argument. -/
def wiresKdl (ws : Workspace) (rel : WireRel) (third : Pair → Option KdlValue) : KdlDocument :=
  (ws.links rel).map fun p => pairKdl rel.word p (third p)

def workspaceBlock (round : Rounding) (ws : Workspace) : KdlDocument :=
  (ws.name.map (strLine "name")).toList ++
    -- only a definition writes the flag; the default is a tab you can open
    (if ws.tab then [] else [.line "tab" [.bool false]]) ++ ws.nodes.map (snapKdl round) ++
    wiresKdl ws .connection (fun p => (ws.mountPaths.lookup p).map .string) ++
    wiresKdl ws .midi (fun p => (ws.midiChannels.lookup p).map fun ch => .integer ch) ++
    wiresKdl ws .serve (fun p => (ws.servePorts.lookup p).map fun port => .integer port) ++
    wiresKdl ws .netLink (fun _ => none) ++ wiresKdl ws .captureLink (fun _ => none) ++
    wiresKdl ws .clipboardLink (fun _ => none) ++ wiresKdl ws .apiLink (fun _ => none)

def workspaceKdl (round : Rounding) (ws : Workspace) : KdlNode :=
  { KdlNode.line "workspace" [.string (NodeId.toText ws.id)] with children := some (workspaceBlock round ws) }

/-! ## Documents -/

/-- One dependency line; a block only where there is something to say in it. -/
def depKdl (dep : Dependency) : KdlNode :=
  let sub := (dep.description.map (strLine "description")).toList ++
    (if dep.args = [] then [] else [.line "args" (dep.args.map .string)])
  { strLine dep.name dep.source.toKdl with children := if sub = [] then none else some sub }

namespace Document

/-- The document as KDL nodes: imports, dependencies and workspaces, less what was imported. -/
def toKdlDoc (round : Rounding) (doc : Document) : KdlDocument :=
  let deps := (doc.dependencies.filter fun d => d.name ∉ doc.importedDeps).map depKdl
  doc.imports.map (strLine "import") ++
    (if deps = [] then [] else [{ KdlNode.line "dependencies" [] with children := some deps }]) ++
    (doc.workspaces.filter fun w => w.id ∉ doc.importedWorkspaces).map (workspaceKdl round)

end Document

end Wk
