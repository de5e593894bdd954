/-
# Wk.Workspace.Load -- reading a whole document

A boundary port or a group instance that cannot be read is an error of the document; the
rest of it is read leniently.
-/
import Wk.Workspace.Read

namespace Wk

open Wk.Library

set_option autoImplicit false

/-- Why a document was refused, and what was said before. -/
structure Fault where
  text : String
  said : List Report := []
  deriving DecidableEq, Repr

/-- `ok_or_else`. -/
def Reading.require {α : Type} (x : Reading α) (text : String) : Except Fault α :=
  match x.made with
  | some a => .ok a
  | none => .error { text, said := x.said }

/-! ## Boundaries -/

def validateGroup (n : KdlNode) : Except Fault Unit := do
  let name ← Reading.require (strAt n 0) "group needs a definition name: group \"voice\" \"<instance id>\""
  let quoted := debugStr name
  let _ ← (idAt n 1).require ("group " ++ quoted ++ " needs an instance id: group " ++ quoted ++ " \"<instance id>\"")
  n.block.forM fun c => do
    if c.name ∈ ["in", "out"] then
      let port ← Reading.require (strAt c 0)
        ("group " ++ quoted ++ ": " ++ c.name ++ " needs a port name: " ++ c.name ++ " \"notes\" \"<node id>\"")
      let _ ← (idAt c 1).require
        ("group " ++ quoted ++ ": " ++ c.name ++ " " ++ debugStr port ++
          " needs the id of the node on this canvas to join the port to")

/-- One `inport` or `outport` line; names are unique per direction. -/
def validatePort (seen : List (String × String)) (n : KdlNode) : Except Fault (List (String × String)) := do
  let dir := n.name
  let name ← Reading.require (strAt n 0) (dir ++ " needs a name: " ++ dir ++ " \"notes\" \"midi\" \"<node id>\"")
  let quoted := debugStr name
  let word ← Reading.require (strAt n 1)
    (dir ++ " " ++ quoted ++ " needs a connection kind (" ++ PortKind.words ++ ") as its second argument")
  let kind ← Reading.require (PortKind.parse word)
    (dir ++ " " ++ quoted ++ " has unknown connection kind " ++ debugStr word ++ "; expected one of " ++ PortKind.words)
  match kind with
  | .net =>
    throw { text := dir ++ " " ++ quoted ++ " is a net port, which wk does not support yet: an app belongs to exactly one network, so a net wire crossing a boundary would move an inner node off its own network instead of adding one" }
  | .serve =>
    throw { text := dir ++ " " ++ quoted ++ " is a serve port, which wk does not support yet: a node is served through exactly one HostPort, so a serve wire crossing a boundary would take over an inner node's existing one" }
  | _ => pure ()
  if (dir, name) ∈ seen then
    throw { text := "two " ++ dir ++ "s named " ++ quoted ++ " in the same workspace; a boundary port's name is how a wire from outside picks it, so it must be unique per direction" }
  return (dir, name) :: seen

/-- The lines of one workspace. -/
def validateBlock (ws : KdlNode) : Except Fault Unit := do
  let _ ← ws.block.foldlM (fun seen n => do
    if n.name = "group" then
      validateGroup n
      return seen
    else if n.name ∈ ["inport", "outport"] then validatePort seen n
    else return seen) []

/-- Check every `inport`, `outport` and `group` line before the document becomes a model. -/
def validateBoundaries (doc : KdlDocument) : Except Fault Unit := (doc.named "workspace").forM validateBlock

/-! ## Documents -/

/-- `trim_end_matches(':')`: an npm-style trailing colon on the name. -/
def trimColons (s : String) : String := String.ofList (s.toList.reverse.dropWhile (· = ':')).reverse

def parseDep (n : KdlNode) : Option Dependency := do
  let source ← strAt n 0
  return {
    name := trimColons n.name
    source := Source.parse source
    args := ((n.block.get "args").map fun a => a.entries.filterMap fun e => e.value.asString).getD []
    description := textIn n.block "description" }

/-- What a file says once parsed, and what was said of it.  `blank` is the id of the
workspace made for a file without one. -/
def fromKdl (round : Rounding) (blank : NodeId) (doc : KdlDocument) : Except Fault (Document × List Report) := do
  validateBoundaries doc
  let read := (doc.named "workspace").map (parseWorkspace round)
  let workspaces := read.filterMap Reading.made
  return ({
    imports := (doc.named "import").filterMap fun n => strAt n 0
    dependencies := ((doc.get "dependencies").map fun n => n.block.filterMap parseDep).getD []
    workspaces := if workspaces = [] then [{ id := blank }] else workspaces }, read.flatMap Reading.said)

end Wk
