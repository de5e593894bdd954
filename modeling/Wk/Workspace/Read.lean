/-
# Wk.Workspace.Read -- reading a `workspace` block

A block is read line by line, leniently: what cannot be understood is skipped, and some of
what is skipped is reported on standard error.  A `Reading` is what was made of a part of
the file, if anything, and what was said about it.
-/
import Wk.Workspace.Text
import Wk.Library.Kdl
import Wk.Server.Nodes

namespace Wk

open Wk.Library

set_option autoImplicit false

/-! ## Readings -/

/-- A complaint on standard error. -/
inductive Report where
  | notAnId (v : KdlValue)
  | badId (s : String) (hint : Option String)
  | workspaceLost (nodes : Nat)
  | nodeSkipped (kind : String)
  deriving DecidableEq, Repr

structure Reading (α : Type) where
  made : Option α
  said : List Report := []
  deriving DecidableEq, Repr

namespace Reading

variable {α β : Type}

instance : Monad Reading where
  pure a := { made := some a }
  bind x f :=
    match x.made with
    | none => { made := none, said := x.said }
    | some a => { made := (f a).made, said := x.said ++ (f a).said }

instance : MonadLift Option Reading where
  monadLift x := { made := x }

/-- `if let Some`: go on with what was made, or with nothing. -/
def optional (x : Reading α) : Reading (Option α) := { made := some x.made, said := x.said }

def say (r : Report) : Reading Unit := { made := some (), said := [r] }

theorem bind_some {x : Reading α} {f : α → Reading β} {a : α} (made : x.made = some a) :
    x >>= f = { made := (f a).made, said := x.said ++ (f a).said } := by
  change (match x.made with
    | none => _
    | some a => _) = _
  rw [made]

theorem bind_none {x : Reading α} {f : α → Reading β} (made : x.made = none) :
    x >>= f = { made := none, said := x.said } := by
  change (match x.made with
    | none => _
    | some a => _) = _
  rw [made]

end Reading

/-! ## Values -/

/-- Rust's `as f32`, from a double and from a 128-bit integer, and `as f64` from a single. -/
structure Rounding where
  float : UInt64 → F32
  integer : Int → F32
  widen : F32 → UInt64

def num (round : Rounding) (v : KdlValue) : Option F32 :=
  (v.asFloat.map round.float).or (v.asInteger.map round.integer)

/-- `as u64` keeps the low 64 bits. -/
def uint (v : KdlValue) : Option Nat := v.asInteger.map fun i => (i % 2 ^ 64).toNat

/-- `u16::try_from`. -/
def asU16 (n : Nat) : Option Nat := if n < 2 ^ 16 then some n else none

/-- Why a node id might be rejected. -/
def idHint (s : String) : Option String :=
  if s.toList.any (fun c => c = 'U' ∨ c = 'u') then
    some " — node ids are Crockford base32, whose alphabet has no 'U' (unlike I, L and O, which are accepted as aliases for 1, 1 and 0)"
  else if (trim s).length ≠ 26 then
    some (" — a node id is exactly 26 characters, this one is " ++ toString (trim s).length)
  else none

/-- A node id from a KDL value, complaining if it cannot be read. -/
def nodeId (v : KdlValue) : Reading NodeId :=
  match v.asString with
  | none => { made := none, said := [.notAnId v] }
  | some s =>
    match NodeId.ofText s with
    | some id => { made := some id }
    | none => { made := none, said := [.badId s (idHint s)] }

/-- Which argument of a placed-node line carries the node id. -/
def idArgIndex (keyword : String) : Nat :=
  if keyword ∈ ["node", "volume", "virtualfile", "bindmount", "hostfile", "midiin", "midiout", "hostservice",
      "group"] then 1
  else if keyword ∈ ["inport", "outport"] then 2
  else 0

/-! ## Placed nodes -/

/-- The text of the first child of a name. -/
def textIn (ch : KdlDocument) (name : String) : Option String :=
  ((ch.get name).bind fun x => x.get 0).bind KdlValue.asString

def flagIn (ch : KdlDocument) (name : String) : Option Bool :=
  ((ch.get name).bind fun x => x.get 0).bind KdlValue.asBool

def xyIn (round : Rounding) (ch : KdlDocument) (key : String) : Option Vec2 := do
  let n ← ch.get key
  return (← (n.get 0).bind (num round), ← (n.get 1).bind (num round))

def poseIn (round : Rounding) (ch : KdlDocument) : Option Pose := do
  let p ← ch.get "pos3d"
  return (← (p.get 0).bind (num round), ← (p.get 1).bind (num round), ← (p.get 2).bind (num round),
    ((p.get 3).bind (num round)).getD 0)

/-- An argument as an id, if it is there. -/
def idAt (n : KdlNode) (i : Nat) : Reading NodeId := do nodeId (← n.get i)

/-- An argument as a string, if it is there. -/
def strAt (n : KdlNode) (i : Nat) : Option String := (n.get i).bind KdlValue.asString

/-- The boundary wires in a `group` block. -/
def groupWires (ch : KdlDocument) : Reading (List (String × NodeId) × List (String × NodeId)) :=
  ch.foldlM (fun wires c => do
    if c.name = "in" then
      return (wires.1 ++ [(← strAt c 0, ← idAt c 1)], wires.2)
    else if c.name = "out" then
      return (wires.1, wires.2 ++ [(← strAt c 0, ← idAt c 1)])
    else return wires) ([], [])

/-- The port a `hostport` block sets: out of range is rejected rather than truncated. -/
def hostPort (ch : KdlDocument) : Option Nat :=
  (((ch.get "port").bind fun p => p.get 0).bind uint).bind asU16

/-- The kind of a placed node, dispatching on the KDL node name. -/
def parseKind (round : Rounding) (n : KdlNode) (ch : KdlDocument) : Reading SnapKind :=
  match n.name with
  | "node" => do
    let options := ((ch.get "options").map fun o => o.entries.filterMap fun e => num round e.value).getD []
    let args := ((ch.get "args").map fun a => a.entries.filterMap fun e => e.value.asString).getD []
    return .app (← strAt n 0) (textIn ch "name") options args (textIn ch "token")
  -- `virtualfile` and `hostfile` are the legacy names, still accepted on read
  | "volume" | "virtualfile" => do return .volume (← strAt n 0) ((flagIn ch "persist").getD false)
  | "bindmount" | "hostfile" => do return .bindMount (← strAt n 0)
  | "note" => return .note ((textIn ch "text").getD "")
  | "hostport" => do return .port (← hostPort ch)
  | "capture" => return .capture
  | "clipboard" => return .clipboard
  | "api" => return .api
  | "midiin" => return .midiIn ((strAt n 0).getD "")
  | "midiout" => return .midiOut ((strAt n 0).getD "")
  | "multicast" => return .multicast (textIn ch "iface") ((n.block.named "group").filterMap fun c => strAt c 0)
  | "hostservice" => do return .hostService (← strAt n 0) (← textIn ch "target")
  | "inport" => do return .inPort (← strAt n 0) (← PortKind.parse (← strAt n 1))
  | "outport" => do return .outPort (← strAt n 0) (← PortKind.parse (← strAt n 1))
  | "group" => do
    let wires ← groupWires ch
    return .group (← strAt n 0) (textIn ch "name") wires.1 wires.2
  | "network" => return .net false
  | "gateway" => return .net true
  | "router" => return .router
  | "iroh" => return .iroh (textIn ch "secret") (textIn ch "peer")
  | "veilid" => return .veilid (textIn ch "secret") (textIn ch "peer")
  | _ => { made := none }

/-- A boundary port or a group instance is a declaration first and a placed node second. -/
def isDeclaration (keyword : String) : Bool := keyword ∈ ["inport", "outport", "group"]

/-- Position and size, which only a declaration may leave out: it takes the small-widget
default. -/
def geometry (round : Rounding) (declaration : Bool) (ch : KdlDocument) : Option (Vec2 × Vec2) :=
  match xyIn round ch "pos", xyIn round ch "size" with
  | some pos, some size => some (pos, size)
  | pos, size => if declaration then some (pos.getD (0, 0), size.getD fileSize) else none

/-- Parse one placed node of any kind. -/
def parseSnap (round : Rounding) (n : KdlNode) : Reading NodeSnap := do
  let id ← idAt n (idArgIndex n.name)
  let ch ← n.children.or (if isDeclaration n.name then some [] else none)
  let kind ← parseKind round n ch
  let (pos, size) ← geometry round (isDeclaration n.name) ch
  return { id, pos, size, pos3d := poseIn round ch, panel3d := (flagIn ch "panel3d").getD true, kind }

/-! ## Blocks -/

/-- The two ends of a wire line; each that cannot be read is complained of. -/
def pairOf (n : KdlNode) : Reading Pair :=
  let a := idAt n 0
  let b := idAt n 1
  { made := a.made.bind fun x => b.made.map fun y => (x, y), said := a.said ++ b.said }

namespace Workspace

def addLink (ws : Workspace) (rel : WireRel) (p : Pair) : Workspace :=
  { ws with links := Function.update ws.links rel (ws.links rel ++ [p]) }

end Workspace

/-- One wire line: its ends, and what `third` makes of the optional third argument. -/
def readWire (ws : Workspace) (rel : WireRel) (c : KdlNode) (third : Workspace → Pair → KdlValue → Workspace) :
    Reading Workspace := do
  match ← (pairOf c).optional with
  | none => return ws
  | some p =>
    let ws := ws.addLink rel p
    return ((c.get 2).map (third ws p)).getD ws

/-- The in-app mount path of a bind. -/
def mountArg (ws : Workspace) (p : Pair) (v : KdlValue) : Workspace :=
  match v.asString with
  | some path => { ws with mountPaths := ws.mountPaths.insert p path }
  | none => ws

/-- The single MIDI channel a wire carries. -/
def channelArg (ws : Workspace) (p : Pair) (v : KdlValue) : Workspace :=
  match uint v with
  | some ch => if 1 ≤ ch ∧ ch ≤ 16 then { ws with midiChannels := ws.midiChannels.insert p ch } else ws
  | none => ws

/-- The guest (container) port of a serve. -/
def portArg (ws : Workspace) (p : Pair) (v : KdlValue) : Workspace :=
  match (uint v).bind asU16 with
  | some port => { ws with servePorts := ws.servePorts.insert p port }
  | none => ws

/-- One line of a `workspace` block. -/
def readLine (round : Rounding) (ws : Workspace) (c : KdlNode) : Reading Workspace :=
  match c.name with
  -- `name ""` is a named-but-blank workspace, not an unnamed one
  | "name" => return { ws with name := some ((strAt c 0).getD "") }
  | "tab" => return { ws with tab := ((c.get 0).bind KdlValue.asBool).getD true }
  | "connection" => readWire ws .connection c mountArg
  | "midi" => readWire ws .midi c channelArg
  | "serve" => readWire ws .serve c portArg
  | "netlink" => readWire ws .netLink c fun ws _ _ => ws
  | "capturelink" => readWire ws .captureLink c fun ws _ _ => ws
  | "clipboardlink" => readWire ws .clipboardLink c fun ws _ _ => ws
  | "apilink" => readWire ws .apiLink c fun ws _ _ => ws
  | kind => do
    match ← (parseSnap round c).optional with
    | some snap => return { ws with nodes := ws.nodes ++ [snap] }
    | none =>
      Reading.say (.nodeSkipped kind)
      return ws

/-- Parse a `workspace "<id>" { ...canvas... }` block. -/
def parseWorkspace (round : Rounding) (n : KdlNode) : Reading Workspace := do
  match ← (idAt n 0).optional with
  | some id => n.block.foldlM (readLine round) { id }
  | none =>
    Reading.say (.workspaceLost n.block.length)
    none

end Wk
