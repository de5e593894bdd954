/-
# Wk.Instancing -- what a `group` node stands for

`expand` resolves every `group` of a document's tabs, recursively: it derives the
ids an instance's nodes take, substitutes the definition's boundary ports by
whatever the level above wired into them, and refuses the whole document when a
group is cyclic, too deep, misnamed or miswired.  It is a pure function of the
document.

Two things come from SHA-256 and are parameters here (`Digests`): the id an inner
node takes inside an instance, and the two bytes a generated name is read off.
The walk along the levels is structural in the room left below `maxDepth`.
-/
import Wk.Wiring
import Wk.Workspace
import Mathlib

namespace Wk

open Wk.Library

set_option autoImplicit false

/-! ## Digests and generated names -/

/-- What the program takes from SHA-256. -/
structure Digests where
  /-- `derive_id`: the id a definition's inner node takes inside an instance. -/
  derive : NodeId → NodeId → NodeId
  /-- The first two bytes of the digest a generated name is read off. -/
  nameBytes : NodeId → Nat → UInt8 × UInt8
  /-- How many candidates a search for a free name tries.  The source's walk has
  no such bound: a search that runs past it stands for one that never ends. -/
  walk : Nat

/-- Digests whose derived ids are the even numbers from 1000 up. -/
def Digests.apart : Digests where
  derive := fun i a => 1000 + 2 * Nat.pair i a
  nameBytes := fun id nth => (UInt8.ofNat id, UInt8.ofNat nth)
  walk := 8

namespace Nodename

def qualities : List String :=
  ["amber", "bright", "brisk", "calm", "clever", "cosy", "curious", "deep", "eager", "easy",
   "fair", "gentle", "glad", "keen", "kind", "lively", "lucky", "merry", "mild", "neat", "nimble",
   "patient", "plain", "quick", "quiet", "ready", "smooth", "soft", "steady", "sunny", "warm",
   "wise"]

def things : List String :=
  ["anchor", "arbor", "basin", "beacon", "birch", "bluff", "brook", "canyon", "cedar", "cinder",
   "cliff", "comet", "cove", "creek", "delta", "dune", "ember", "fern", "fjord", "forge",
   "garden", "glade", "grove", "harbor", "haven", "hollow", "island", "jetty", "lagoon",
   "lantern", "ledge", "maple", "meadow", "meander", "mesa", "moor", "narrows", "orbit",
   "orchard", "pebble", "pier", "pine", "plateau", "prairie", "quarry", "rapids", "reef", "ridge",
   "river", "shoal", "signal", "spire", "spring", "summit", "terrace", "thicket", "tide",
   "trellis", "tundra", "valley", "vault", "wharf", "willow", "window"]

/-- The name `id` generates; `nth` walks to another name for the same id. -/
def generated (dg : Digests) (id : NodeId) (nth : Nat) : String :=
  let d := dg.nameBytes id nth
  qualities.getD (d.1.toNat % qualities.length) "" ++ "-" ++
    things.getD (d.2.toNat % things.length) ""

/-- The first generated name of `id` that passes `free`. -/
def firstFree (dg : Digests) (id : NodeId) (free : String → Bool) : Option String :=
  ((List.range dg.walk).map (generated dg id)).find? free

end Nodename

namespace Instancing

/-- How deep groups may nest. -/
def maxDepth : Nat := 16

/-- How many instances one document may expand to. -/
def maxInstances : Nat := 4096

/-- One expanded instance: everything a `group` node stands for. -/
structure Instance where
  id : NodeId
  definition : String
  name : String
  definedIn : NodeId
  tab : NodeId
  parent : Option NodeId
  path : List String
  content : Workspace

/-! ## Errors -/

/-- Why a document does not expand. -/
inductive ExpandError where
  | duplicateDefinition (name : String) (first second : NodeId)
  | containsItself (site definition : String) (cycle : List String)
  | tooDeep (site definition : String) (path : List String)
  | namesTab (site definition : String)
  | noDefinition (site definition : String)
  | tooManyInstances (site definition : String)
  | portSource (site definition : String) (dir : PortDir) (port : String) (rel : WireRel)
  | wrongEdge (site definition : String) (dir : PortDir) (port : String)
  | noPort (site definition : String) (dir : PortDir) (port : String)
  | offCanvas (site definition : String) (dir : PortDir) (port : String) (endpoint : NodeId)
  | wrongClass (site definition : String) (dir : PortDir) (port : String) (far : SnapKind)
      (kind : PortKind)
  /-- A search for a free generated name that never ends. -/
  | namesExhausted
  deriving DecidableEq, Repr

/-! ## Definitions, names and ports -/

/-- Index one definition by its name; an unnamed one is unreachable, not
ambiguous. -/
def indexDefinition (defs : Table String Workspace) (ws : Workspace) :
    Except ExpandError (Table String Workspace) :=
  match ws.name with
  | none => .ok defs
  | some name =>
    match defs.lookup name with
    | some first => .error (.duplicateDefinition name first.id ws.id)
    | none => .ok (defs.insert name ws)

/-- Index the document's definitions by name. -/
def definitions (doc : Document) : Except ExpandError (Table String Workspace) :=
  (doc.workspaces.filter fun ws => !ws.tab).foldlM indexDefinition ∅

/-- The local name of each group on one canvas, in document order. -/
def localNames (dg : Digests) (canvas : List NodeSnap) : Except ExpandError (List String) :=
  canvas.foldlM (fun taken node =>
    match node.kind with
    | .group _ (some chosen) _ _ => .ok (taken ++ [chosen])
    | .group _ none _ _ =>
      match Nodename.firstFree dg node.id fun c => !taken.contains c with
      | some c => .ok (taken ++ [c])
      | none => .error .namesExhausted
    | _ => .ok taken) []

/-- A boundary port's direction, name and connection kind, if this snap is one. -/
def portOf (n : NodeSnap) : Option (PortDir × String × PortKind) :=
  match n.kind with
  | .inPort name kind => some (.inward, name, kind)
  | .outPort name kind => some (.outward, name, kind)
  | _ => none

/-- What a node written in a `.wk` file is, for classifying a boundary line. -/
def classOf : SnapKind → NodeClass
  | .volume .. | .bindMount .. => .file
  | .port .. => .port
  | .net .. => .net
  | .router => .router
  | .iroh .. | .veilid .. | .multicast .. => .uplink
  | .capture => .capture
  | .clipboard => .clipboard
  | .api => .api
  | .midiIn .. => .midiSource
  | .midiOut .. => .midiSink
  | .hostService .. => .hostSvc
  | .inPort _ kind => .boundary .inward kind
  | .outPort _ kind => .boundary .outward kind
  | .group .. => .instance_
  | .app .. | .note .. => .other

/-- How an error names where a group is written. -/
def siteLabel (ws : Workspace) : String :=
  match ws.name with
  | some name => s!"workspace {debugStr name}"
  | none => s!"workspace {NodeId.toText ws.id}"

/-- Where a group is written: the tab the whole tree belongs to, how an error
names the place, and the canvas a boundary line's endpoints must be on. -/
structure Site where
  tab : NodeId
  label : String
  canvas : List NodeSnap

/-- The `in` lines of a group, then its `out` lines. -/
def groupLines : SnapKind → List (PortDir × String × NodeId)
  | .group _ _ inWires outWires =>
    inWires.map (fun l => (.inward, l.1, l.2)) ++ outWires.map (fun l => (.outward, l.1, l.2))
  | _ => []

/-- The definition a group names. -/
def groupDefinition : SnapKind → String
  | .group definition .. => definition
  | _ => ""

/-- The ports of a definition by direction and name, as derived ids. -/
def namedPorts (dg : Digests) (inst : NodeId) (nodes : List NodeSnap) :
    Table (PortDir × String) (NodeId × PortKind) :=
  nodes.foldl (fun named n =>
    match portOf n with
    | some (dir, name, kind) => named.insert (dir, name) (dg.derive inst n.id, kind)
    | none => named) ∅

/-- The ports of a definition by derived id. -/
def portsById (dg : Digests) (inst : NodeId) (nodes : List NodeSnap) :
    Table NodeId (PortDir × String) :=
  nodes.foldl (fun ports n =>
    match portOf n with
    | some (dir, name, _) => ports.insert (dg.derive inst n.id) (dir, name)
    | none => ports) ∅

/-- Every port of a definition, bound to nothing yet. -/
def unboundPorts (dg : Digests) (inst : NodeId) (nodes : List NodeSnap) :
    Table NodeId (List NodeId) :=
  nodes.foldl (fun ports n =>
    if (portOf n).isSome then ports.insert (dg.derive inst n.id) [] else ports) ∅

/-- The relations in which a source holds exactly one wire, in the order their
sources are checked. -/
def oneWireRels : List WireRel := [.serve, .netLink, .captureLink, .clipboardLink, .apiLink]

/-- The first wire of a one-per-source relation that has a port for a source. -/
def portAsSource (dg : Digests) (inst : NodeId) (defn : Workspace) :
    Option (PortDir × String × WireRel) :=
  oneWireRels.findSome? fun r =>
    (defn.links r).findSome? fun l =>
      ((portsById dg inst defn.nodes).lookup (dg.derive inst l.1)).map fun p => (p.1, p.2, r)

/-- One `in`/`out` line: find the port it names, check the node at its other end,
and bind that node (through `outer`) to the port. -/
def bindLine (at_ : Site) (definition : String) (named : Table (PortDir × String) (NodeId × PortKind))
    (outer : NodeId → List NodeId) (ports : Table NodeId (List NodeId))
    (line : PortDir × String × NodeId) : Except ExpandError (Table NodeId (List NodeId)) :=
  let (dir, name, endpoint) := line
  match named.lookup (dir, name) with
  | none =>
    if (named.lookup (dir.opposite, name)).isSome then
      .error (.wrongEdge at_.label definition dir name)
    else .error (.noPort at_.label definition dir name)
  | some (port, kind) =>
    match at_.canvas.find? fun n => n.id = endpoint with
    | none => .error (.offCanvas at_.label definition dir name endpoint)
    | some far =>
      if (Wiring.classify endpoint port (classOf far.kind)
          (.boundary dir.opposite kind)).isNone then
        .error (.wrongClass at_.label definition dir name far.kind kind)
      else
        .ok (ports.insert port ((ports.lookup port).getD [] ++ outer endpoint))

/-- One id inside the definition, as live ids: the derived node, or the nodes the
parent bound a boundary port to. -/
def sub (dg : Digests) (inst : NodeId) (ports : Table NodeId (List NodeId)) (inner : NodeId) :
    List NodeId :=
  match ports.lookup (dg.derive inst inner) with
  | some bound => bound
  | none => [dg.derive inst inner]

/-- A link list with both ends of every wire substituted: all combinations. -/
def pairs (sub : NodeId → List NodeId) (links : List Pair) : List Pair :=
  links.flatMap fun l => (sub l.1).flatMap fun x => (sub l.2).map fun y => (x, y)

/-- A per-wire override follows every wire its key expanded into. -/
def keyed {β : Type} (sub : NodeId → List NodeId) (src : Table Pair β) : Table Pair β :=
  (inKeyOrder src).foldl (fun out row =>
    (pairs sub [row.1]).foldl (fun out pair => out.insert pair row.2) out) ∅

/-- A definition's node as it stands in an instance called `name`. -/
def stampNode (dg : Digests) (inst : NodeId) (name : String) (n : NodeSnap) : NodeSnap :=
  { n with
    id := dg.derive inst n.id
    kind := match n.kind with
      | .app dep (some own) options args token => .app dep (some (name ++ "-" ++ own)) options args token
      | other => other }

/-- The definition's content with every id run through the substitution. -/
def stampContent (dg : Digests) (inst : NodeId) (name : String) (defn : Workspace)
    (ports : Table NodeId (List NodeId)) : Workspace where
  id := inst
  nodes := ((defn.nodes.filter fun n => !n.kind.isGroup).filter fun n => (portOf n).isNone).map
    (stampNode dg inst name)
  links := fun r => pairs (sub dg inst ports) (defn.links r)
  mountPaths := keyed (sub dg inst ports) defn.mountPaths
  servePorts := keyed (sub dg inst ports) defn.servePorts

/-! ## The walk -/

/-- The definition at the end of the path, or the error that stops the walk
there: a cycle, too deep a nesting, a name that is no definition, or too many
instances. -/
def resolveDefinition (doc : Document) (defs : Table String Workspace) (room : Nat)
    (path : List String) (expanded : Nat) (site definition : String) :
    Except ExpandError Workspace :=
  match path.findIdx? fun d => d = definition with
  | some i => .error (.containsItself site definition (path.drop i ++ [definition]))
  | none =>
    if room = 0 then .error (.tooDeep site definition path)
    else match defs.lookup definition with
      | none =>
        if doc.workspaces.any fun w => w.tab && w.name = some definition then
          .error (.namesTab site definition)
        else .error (.noDefinition site definition)
      | some defn =>
        if maxInstances ≤ expanded then .error (.tooManyInstances site definition)
        else .ok defn

/-- Bind every boundary line of a group to the ports of its definition. -/
def bindPorts (dg : Digests) (at_ : Site) (inst : NodeId) (definition : String) (defn : Workspace)
    (lines : List (PortDir × String × NodeId)) (outer : NodeId → List NodeId) :
    Except ExpandError (Table NodeId (List NodeId)) :=
  match portAsSource dg inst defn with
  | some (dir, name, rel) => .error (.portSource at_.label definition dir name rel)
  | none =>
    lines.foldlM (bindLine at_ definition (namedPorts dg inst defn.nodes) outer)
      (unboundPorts dg inst defn.nodes)

/-- Expand one group and, depth-first, every group its definition contains.
`room` is what is left below `maxDepth`, so `path` has `maxDepth - room` names. -/
def group (dg : Digests) (doc : Document) (defs : Table String Workspace) :
    (room : Nat) → (path : List String) → (out : List Instance) → (at_ : Site) →
    (inst : NodeId) → (parent : Option NodeId) → (node : NodeSnap) → (name : String) →
    (outer : NodeId → List NodeId) → Except ExpandError (List Instance)
  | 0, path, out, at_, _, _, node, _, _ => do
    let _ ← resolveDefinition doc defs 0 path out.length at_.label (groupDefinition node.kind)
    .ok out
  | room + 1, path, out, at_, inst, parent, node, name, outer => do
    let definition := groupDefinition node.kind
    let defn ← resolveDefinition doc defs (room + 1) path out.length at_.label definition
    let path := path ++ [definition]
    let ports ← bindPorts dg at_ inst definition defn (groupLines node.kind) outer
    let here : Instance :=
      { id := inst, definition, name, definedIn := defn.id, tab := at_.tab, parent, path
        content := stampContent dg inst name defn ports }
    let inner : Site :=
      { tab := at_.tab, label := s!"definition {debugStr definition}", canvas := defn.nodes }
    let locals ← localNames dg defn.nodes
    (defn.groupsIn.zip locals).foldlM (fun out nested =>
      group dg doc defs room path out inner (dg.derive inst nested.1.id) (some inst) nested.1
        (name ++ "-" ++ nested.2) (sub dg inst ports)) (out ++ [here])

/-- Expand the groups of one tab. -/
def expandTab (dg : Digests) (doc : Document) (defs : Table String Workspace)
    (out : List Instance) (ws : Workspace) : Except ExpandError (List Instance) := do
  let site : Site := { tab := ws.id, label := siteLabel ws, canvas := ws.nodes }
  let names ← localNames dg ws.nodes
  -- A group written in a tab wires to the tab's own nodes, so an endpoint on its
  -- lines is already the live id.
  (ws.groupsIn.zip names).foldlM (fun out g =>
    group dg doc defs maxDepth [] out site g.1.id none g.1 g.2 fun id => [id]) out

/-- Resolve every group in the document's tabs, recursively, in document order
with parents before their children. -/
def expand (dg : Digests) (doc : Document) : Except ExpandError (List Instance) := do
  let defs ← definitions doc
  (doc.workspaces.filter fun ws => ws.tab).foldlM (expandTab dg doc defs) []

end Instancing

end Wk
