/-
# Wk.Server.Instances -- groups, their instances, and removing nodes

A `group` node is expanded into an instance: nodes under derived ids in a
workspace of the instance's own, plus wiring.  Removing a group tears its instance
down, which removes nodes in turn, so the two are one recursion here
(`tearDownInstance`), bounded by the number of instances and nodes there are.
-/
import Wk.Server.Nodes

namespace Wk

open Wk.Library

set_option autoImplicit false

namespace Server

variable {start : Graph}

/-! ## Removing -/

/-- What removing a node does to the running half, with the graph as it stands once
the node's wires are gone. -/
def removeRuntime (w : World) (h : Host) (s : Server start) (id : NodeId) : Runtime :=
  let g := s.graph.unwire h.pairs id
  match s.graph.kindOf id with
  | some .file => s.runtime.reconcileMounts w h s.nodeAuth g
  | some .app =>
    ({ s.runtime with apps := s.runtime.apps.filter fun n => n.id ≠ id } : Runtime).reconcileMounts
      w h s.nodeAuth g
  | _ => s.runtime

/-- Remove one node and nothing else. -/
def removeLeaf (w : World) (h : Host) (s : Server start) (id : NodeId) : Server start :=
  ({ s with runtime := s.removeRuntime w h id } : Server start).perform (.remove h.pairs id)

/-- Remove a node by kind: a group takes its instance with it, through `tearDown`. -/
def removeWith (w : World) (h : Host) (tearDown : Server start → NodeId → Server start)
    (s : Server start) (id : NodeId) : Server start :=
  match s.graph.kindOf id with
  | none => s
  | some .group => (tearDown s id).removeLeaf w h id
  | some _ => s.removeLeaf w h id

/-- The instances written inside instance `id`, in id order. -/
def nestedIn (s : Server start) (id : NodeId) : List NodeId :=
  (s.instances.keys.filter fun i =>
    (s.instances.lookup i).any fun rec => rec.parent = some id).insertionSort (· ≤ ·)

/-- Stop and forget one instance and everything nested inside it: the nested
instances, then its wires, then its nodes. -/
def tearDownInstance (w : World) (h : Host) : Nat → Server start → NodeId → Server start
  | 0, s, _ => s
  | fuel + 1, s, id =>
    let s := (s.nestedIn id).foldl (fun s child => tearDownInstance w h fuel s child) s
    match s.instances.lookup id with
    | none => s
    | some rec =>
      let s := { s with instances := s.instances.erase id }
      let s := rec.wires.foldl (fun s wire => s.unwireRel w h wire.1 wire.2.1 wire.2.2) s
      rec.nodes.foldl (removeWith w h (tearDownInstance w h fuel)) s

/-- Enough fuel for any teardown from this state. -/
def depth (s : Server start) : Nat := s.instances.entries.length + s.graph.nodes.entries.length + 1

/-- Remove a node by kind. -/
def removeAny (w : World) (h : Host) (s : Server start) (id : NodeId) : Server start :=
  s.removeWith w h (tearDownInstance w h s.depth) id

/-- Delete a workspace and every node in it; the last one stays. -/
def removeWorkspace (w : World) (h : Host) (s : Server start) (id : NodeId) : Server start :=
  if s.graph.workspaces.length ≤ 1 || id ∉ s.graph.workspaces then s
  else
    let victims := h.ids (s.graph.nodes.keys.filter fun n =>
      (s.graph.nodes.lookup n).any fun rec => rec.ws = id)
    (victims.foldl (removeAny w h) s).perform (.removeTab id)

/-! ## Expanding -/

/-- The document a group is resolved in: the authored definitions and the group's
own canvas, less the other groups. -/
def groupDocument (w : World) (s : Server start) (ws id : NodeId) : Document :=
  let live := s.graph.nodes.keys.filter fun n =>
    (s.graph.nodes.lookup n).any fun rec => rec.ws = ws && (n = id || rec.kind ≠ .group)
  let nodes := live.filterMap (s.nodeSnap w) ++
    (s.unplaced.filter fun u => u.1 = ws).map Prod.snd
  { workspaces := s.authored.map Prod.snd ++
      [{ id := ws, nodes := nodes.insertionSort fun a b => a.id ≤ b.id }] }

/-- Resolve what one group stands for, without materializing any of it. -/
def resolveGroup (w : World) (s : Server start) (ws id : NodeId) :
    Except Instancing.ExpandError (List Instancing.Instance) :=
  Instancing.expand w.digests (s.groupDocument w ws id)

/-- Materialize one instance's content; returns the wires it made. -/
def instantiateContent (w : World) (h : Host) (s : Server start) (content : Workspace) :
    Server start × List (WireRel × NodeId × NodeId) :=
  (content.nodes.foldl (fun s snap => s.materialize w h content.id snap []) s).applyWires w h content

/-- Record the wires an instance is remembered by, if it is live. -/
def setInstanceWires (s : Server start) (id : NodeId) (wires : List (WireRel × NodeId × NodeId)) :
    Server start :=
  match s.instances.lookup id with
  | some rec => { s with instances := s.instances.insert id { rec with wires } }
  | none => s

/-- Bring one expanded instance to life: its record first, then its content. -/
def addInstance (w : World) (h : Host) (s : Server start) (inst : Instancing.Instance) :
    Server start :=
  let record : InstanceRec :=
    { tab := inst.tab, parent := inst.parent, definition := inst.definition, name := inst.name
      nodes := inst.content.nodes.map NodeSnap.id, wires := [] }
  let s := { s with instances := s.instances.insert inst.id record }
  let (s, made) := s.instantiateContent w h inst.content
  s.setInstanceWires inst.id made

/-- Bring one group node's instance to life, and those nested in it; one that is
live, or does not resolve, is left alone. -/
def expandGroup (w : World) (h : Host) (s : Server start) (ws id : NodeId) : Server start :=
  if id ∈ s.instances then s
  else match s.resolveGroup w ws id with
    | .error _ => s
    | .ok instances => instances.foldl (addInstance w h) s

/-! ## Boundary wires -/

/-- Whether this exact line is written in its group. -/
def boundaryWired (s : Server start) (line : BoundaryWire) : Bool :=
  match s.graph.groups.lookup line.group with
  | some grp => (line.port, line.node) ∈ grp.lines line.dir
  | none => false

/-- Move one live instance's wiring to what its content asks for. -/
def rewireInstance (w : World) (h : Host) (s : Server start) (inst : Instancing.Instance) :
    Server start :=
  let want := wiresOf inst.content
  match s.instances.lookup inst.id with
  | none => s
  | some rec =>
    let had := rec.wires
    let s := s.setInstanceWires inst.id []
    let s := (had.filter fun wire => wire ∉ want).foldl
      (fun s wire => s.unwireRel w h wire.1 wire.2.1 wire.2.2) s
    let (s, made) := s.applyWires w h inst.content
    s.setInstanceWires inst.id ((had.filter fun wire => wire ∈ want) ++ made)

/-- Re-resolve a live instance and move its wiring to match, leaving its nodes
alone. -/
def rewireGroup (w : World) (h : Host) (s : Server start) (ws id : NodeId) :
    Except Instancing.ExpandError (Server start) :=
  (s.resolveGroup w ws id).map fun instances => instances.foldl (rewireInstance w h) s

/-- Author (or unauthor) one line of a group's block and bring the instance's live
wiring in line with it; a line the expansion refuses is rolled back. -/
def setBoundaryWire (w : World) (h : Host) (s : Server start) (line : BoundaryWire)
    (wired : Bool) : Server start :=
  match s.graph.nodes.lookup line.group, s.graph.groups.lookup line.group with
  | some rec, some before =>
    let lines := before.lines line.dir
    let entry := (line.port, line.node)
    if wired = (decide (entry ∈ lines)) then s
    else
      let lines := if wired then lines ++ [entry] else lines.erase entry
      let s := s.perform (.update line.group (.group (before.setLines line.dir lines)))
      match s.rewireGroup w h rec.ws line.group with
      | .ok s => s
      | .error _ => s.perform (.update line.group (.group before))
  | _, _ => s

end Server

end Wk
