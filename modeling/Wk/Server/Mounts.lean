/-
# Wk.Server.Mounts -- the filesystems an app's binds are mounted into

Mounts are derived state: `reconcileMounts` compares the binds an app's token lets
it read with the mounts in effect, unmounts and mounts the difference, and
remounts what changed its write mode.  Everything here changes the runtime only;
the graph is read.
-/
import Wk.Server.State

namespace Wk

open Wk.Library

set_option autoImplicit false

namespace Runtime

/-- Change the filesystem with index `i`. -/
def onFs (rt : Runtime) (i : Nat) (f : Vfs.Fs → Vfs.Fs) : Runtime :=
  match rt.fss.lookup i with
  | some fs => { rt with fss := rt.fss.insert i (f fs) }
  | none => rt

/-- Publish a node's effective token into its own filesystem. -/
def writeTokenFile (auth : Option Bytes) (g : Graph) (rt : Runtime) (id : NodeId) : Runtime :=
  match rt.appNode id with
  | none => rt
  | some node =>
    let token := g.effectiveNodeToken auth id
    if token = [] then rt
    else rt.onFs node.fs fun fs => fs.putFileAt "run/wk/token" (bytesHex token).toUTF8.toList

/-- Bind a file node into the filesystem `i` at `path`. -/
def mountFile (h : Host) (rt : Runtime) (i : Nat) (f : FileNode) (path : String) (writable : Bool) :
    Runtime :=
  rt.onFs i fun fs =>
    match f with
    | .volume _ data _ => fs.putAt path (.shared data) !writable
    | .bind _ hostPath => fs.mountHost path hostPath (h.hostWalk hostPath) writable

/-- Whether a live app serves a filesystem. -/
def servesFs (h : Host) (rt : Runtime) (id : NodeId) : Bool :=
  (rt.appNode id).isSome && ((h.setup id).map Setup.fsProvider).getD false

/-- Whether a live app imports sockets. -/
def importsNet (h : Host) (rt : Runtime) (id : NodeId) : Bool :=
  (rt.appNode id).isSome && ((h.setup id).map Setup.net).getD false

/-- Whether a live app's component is still compiling. -/
def isLoading (h : Host) (rt : Runtime) (id : NodeId) : Bool :=
  (rt.appNode id).isSome && (h.setup id).isNone

/-- Mount the source of a bind, a file node or an app that serves one, at `path`
in filesystem `i`, and note the mount; nothing while neither is there. -/
def mountSource (h : Host) (g : Graph) (rt : Runtime) (pair : Pair) (i : Nat) (path : String)
    (writable : Bool) : Runtime :=
  match g.fileNodes.lookup pair.1 with
  | some f =>
    let rt := rt.mountFile h i f path writable
    { rt with mounted := rt.mounted.insert pair { path, fs := i, writable } }
  | none =>
    if rt.servesFs h pair.1 then
      let rt := rt.onFs i fun fs => fs.putAt path (.provider pair.1) !writable
      { rt with mounted := rt.mounted.insert pair { path, fs := i, writable } }
    else rt

/-- Take down the mount of a bind, if there is one. -/
def unmount (rt : Runtime) (pair : Pair) : Runtime :=
  match rt.mounted.lookup pair with
  | none => rt
  | some m =>
    { rt.onFs m.fs (fun fs => fs.removePath m.path) with mounted := rt.mounted.erase pair }

/-- Re-apply the live mount of a bind at its current path and write mode. -/
def remount (w : World) (h : Host) (auth : Option Bytes) (g : Graph) (rt : Runtime) (pair : Pair) :
    Runtime :=
  match rt.mounted.lookup pair with
  | none => rt
  | some m =>
    let rt := rt.unmount pair
    let writable := g.nodeMayUse w auth pair.2 "file" pair.1 "write"
    rt.mountSource h g pair m.fs (g.mountPathFor rt pair.1 pair.2) writable

/-- The binds whose app may read them. -/
def desiredBinds (w : World) (auth : Option Bytes) (g : Graph) : List Pair :=
  g.connections.filter fun l => g.nodeMayUse w auth l.2 "file" l.1 "read"

/-- Mount a bind that is wanted and not in effect, once its app is there. -/
def mountNew (w : World) (h : Host) (auth : Option Bytes) (g : Graph) (rt : Runtime) (pair : Pair) :
    Runtime :=
  let writable := g.nodeMayUse w auth pair.2 "file" pair.1 "write"
  let path := g.mountPathFor rt pair.1 pair.2
  match rt.appNode pair.2 with
  | none => rt
  | some node => rt.mountSource h g pair node.fs path writable

/-- Remount a bind whose write permission flipped. -/
def remountFlipped (w : World) (h : Host) (auth : Option Bytes) (g : Graph) (rt : Runtime)
    (pair : Pair) : Runtime :=
  match rt.mounted.lookup pair with
  | none => rt
  | some m =>
    if g.nodeMayUse w auth pair.2 "file" pair.1 "write" ≠ m.writable then
      rt.remount w h auth g pair
    else rt

/-- Reconcile the mounts in effect with the binds that are wanted. -/
def reconcileMounts (w : World) (h : Host) (auth : Option Bytes) (g : Graph) (rt : Runtime) :
    Runtime :=
  let desired := desiredBinds w auth g
  let active := rt.mounted.keys
  let stale := h.pairs (active.filter fun p => p ∉ desired)
  let fresh := h.pairs (desired.dedup.filter fun p => p ∉ active)
  let rt := stale.foldl unmount rt
  let rt := fresh.foldl (mountNew w h auth g) rt
  (h.pairs rt.mounted.keys).foldl (remountFlipped w h auth g) rt

/-- One bind of an app that is about to run, laid over whatever is there. -/
def reapplyBind (w : World) (h : Host) (auth : Option Bytes) (g : Graph) (node : AppNode)
    (rt : Runtime) (file : NodeId) : Runtime :=
  let pair := (file, node.id)
  let path := g.mountPathFor rt file node.id
  let rt := rt.unmount pair
  if g.nodeMayUse w auth node.id "file" file "read" then
    let writable := g.nodeMayUse w auth node.id "file" file "write"
    match g.fileNodes.lookup file with
    | some f =>
      let rt := rt.mountFile h node.fs f path writable
      { rt with mounted := rt.mounted.insert pair { path, fs := node.fs, writable } }
    | none => rt
  else rt

/-- Re-mount every bind wired into an app, over its container's root. -/
def reapplyBinds (w : World) (h : Host) (auth : Option Bytes) (g : Graph) (rt : Runtime)
    (app : NodeId) : Runtime :=
  match rt.appNode app with
  | none => rt
  | some node =>
    let files := (g.connections.filter fun l => l.2 = app).map Prod.fst
    let rt := files.foldl (reapplyBind w h auth g node) rt
    rt.writeTokenFile auth g app

/-- Run an idle or exited node's guest, or remember to once it has compiled. -/
def runNode (w : World) (h : Host) (auth : Option Bytes) (g : Graph) (rt : Runtime) (id : NodeId) :
    Runtime :=
  if (rt.appNode id).isNone then rt
  else if rt.isLoading h id then
    { rt with pendingRun := if id ∈ rt.pendingRun then rt.pendingRun else rt.pendingRun ++ [id] }
  else
    ({ rt with pendingRun := rt.pendingRun.filter fun p => p ≠ id } : Runtime).reapplyBinds
      w h auth g id

/-- Start every node whose run was requested while it was compiling. -/
def drainPendingRun (w : World) (h : Host) (auth : Option Bytes) (g : Graph) (rt : Runtime) :
    Runtime :=
  (h.ids rt.pendingRun).foldl (fun rt id =>
    if (rt.appNode id).isNone || (rt.isLoading h id && h.finished id) then
      { rt with pendingRun := rt.pendingRun.filter fun p => p ≠ id }
    else if rt.isLoading h id then rt
    else rt.runNode w h auth g id) rt

/-- A new guest with a filesystem of its own. -/
def spawn (rt : Runtime) (id : NodeId) (name : String) (options : List F32) : Runtime :=
  { rt with
    apps := rt.apps ++ [{ id, name, options, fs := rt.nextFs }]
    fss := rt.fss.insert rt.nextFs Vfs.Fs.new
    nextFs := rt.nextFs + 1 }

/-- A new shared cell holding `bytes`. -/
def newCell (rt : Runtime) (bytes : Bytes) : Nat × Runtime :=
  (rt.nextCell, { rt with cells := rt.cells.insert rt.nextCell bytes, nextCell := rt.nextCell + 1 })

end Runtime

namespace Server

variable {start : Graph}

def appNode (s : Server start) (id : NodeId) : Option AppNode := s.runtime.appNode id

/-- Reconcile mounts, then drop the mount paths of binds that are gone. -/
def syncMounts (w : World) (h : Host) (s : Server start) : Server start :=
  ({ s with runtime := s.runtime.reconcileMounts w h s.nodeAuth s.graph } : Server start).perform
    .pruneMountPaths

/-- Set (or clear) where a bind mounts inside its app, remounting live. -/
def setMount (w : World) (h : Host) (s : Server start) (volume app : NodeId) (path : String) :
    Server start :=
  if (volume, app) ∉ s.graph.connections then s
  else
    let path := trim path
    let s := s.perform (.mountPath (volume, app) (if path = "" then none else some path))
    { s with runtime := s.runtime.remount w h s.nodeAuth s.graph (volume, app) }

/-- Point a BindMount node at a host path, remounting any live binds. -/
def setBindPath (w : World) (h : Host) (s : Server start) (id : NodeId) (hostPath : String) :
    Server start :=
  match s.graph.fileNodes.lookup id with
  | some (.bind ..) =>
    let path := trim hostPath
    let s := s.perform (.update id (.bindPath path (hostFileName path)))
    let binds := h.pairs (s.runtime.mounted.keys.filter fun p => p.1 = id)
    { s with runtime := binds.foldl (Runtime.remount w h s.nodeAuth s.graph) s.runtime }
  | _ => s

/-- Turn on node-capability enforcement. -/
def setNodeAuth (w : World) (h : Host) (s : Server start) (base : Bytes) : Server start :=
  let s := s.perform (.keepTokens w.verifies)
  let s := { s with nodeAuth := some base }
  let apps := h.ids (s.graph.nodes.keys.filter fun id => s.graph.kindOf id = some .app)
  { s with runtime := apps.foldl (Runtime.writeTokenFile s.nodeAuth s.graph) s.runtime }

/-- Replace (or, with empty bytes, reset) an app node's token. -/
def setNodeToken (w : World) (s : Server start) (id : NodeId) (token : Bytes) : Server start :=
  if s.graph.kindOf id ≠ some .app then s
  else if token = [] then
    let s := s.perform (.update id .noToken)
    { s with runtime := s.runtime.writeTokenFile s.nodeAuth s.graph id }
  else if s.nodeAuth.isSome && !w.verifies token then s
  else
    let s := s.perform (.update id (.token token))
    { s with runtime := s.runtime.writeTokenFile s.nodeAuth s.graph id }

end Server

end Wk
