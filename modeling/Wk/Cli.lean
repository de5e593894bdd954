/-
# Wk.Cli -- the two commands that make a node and configure it

`wk node add` and `wk create` are clients of a running server.  A command is acknowledged when it
is queued and applied in a later turn of the server's loop, and no answer names the node that it
made: the call looks for its node in another snapshot.  A `Session` is one call beside the loop
and the other clients, one message or one applied command at a time.

* `Server.ipcSnapshot`: what a client reads.
* `Call.follows`: the commands that configure the node a call takes for its own.
* `Session.step`: how the call, the loop and the others go on, in any order.
-/
import Wk.Server.Apply
import Wk.Library.Floats

namespace Wk

open Wk.Library

set_option autoImplicit false

/-! ## What a client reads -/

structure NodeInfo where
  id : NodeId
  name : String
  args : List String
  deriving DecidableEq, Repr

structure IpcSnapshot where
  workspaces : List NodeId
  nodes : List NodeInfo
  available : List String
  deriving DecidableEq, Repr

namespace Server

variable {start : Graph}

/-- The scope of a node that an instance placed. -/
def placementScope (s : Server start) (id : NodeId) : String :=
  match (s.graph.nodes.lookup id).bind fun rec => s.instances.lookup rec.ws with
  | some rec => rec.name ++ "/"
  | none => ""

/-- The name a node is listed under.  An app's own and an instance's are printed bare. -/
def listedName (s : Server start) (id : NodeId) : String :=
  match s.appNode id with
  | some n => n.name
  | none =>
    let scope := if id ∈ s.graph.groups then "" else s.placementScope id
    let name :=
      match s.graph.fileNodes.lookup id with
      | some f => f.name
      | none =>
        match s.graph.boundaryPorts.lookup id with
        | some p => p.name
        | none => if id ∈ s.graph.groups then s.instanceLabel id else ""
    scope ++ name

/-- The nodes are listed in the order of a hash map. -/
def ipcSnapshot (h : Host) (s : Server start) : IpcSnapshot where
  workspaces := s.graph.workspaces
  nodes := (h.ids s.graph.nodes.keys).map fun id =>
    { id, name := s.listedName id, args := (s.graph.nodeArgs.lookup id).getD [] }
  available := s.graph.available.map Dependency.name

end Server

/-! ## A call -/

/-- `wk node add` with the launch arguments, or `wk create` with the value and `--persist`. -/
inductive Call where
  | add (name : String) (args : List String)
  | create (kind : NodeKind) (value : Option String) (persist : Bool)
  deriving DecidableEq, Repr

/-- The first 12 characters of a node's id. -/
def short (id : NodeId) : String := String.ofList ((NodeId.toText id).toList.take 12)

def kindLabel : NodeKind → String
  | .app _ => "app"
  | .volume => "volume"
  | .bindMount => "bindmount"
  | .port => "hostport"
  | .network => "network"
  | .gateway => "gateway"
  | .router => "router"
  | .iroh => "iroh"
  | .veilid => "veilid"
  | .note => "note"
  | .capture => "capture"
  | .clipboard => "clipboard"
  | .api => "api"
  | .midiIn => "midiin"
  | .midiOut => "midiout"
  | .hostService => "hostservice"
  | .multicast => "multicast"

/-- The bit patterns of `60 + 24 * k`, for `k` up to 7. -/
def cascades : List F32 :=
  [0x42700000, 0x42A80000, 0x42D80000, 0x43040000, 0x431C0000, 0x43340000, 0x434C0000, 0x43640000]

/-- Where the next of `n` nodes is put; `n` is cast to a single. -/
def cascade (n : Nat) : Vec2 :=
  let at_ := cascades.getD (nearest 24 n % 8) 0
  (at_, at_)

/-- `str::split_once`. -/
def splitOnce (sep : Char) (s : String) : Option (String × String) :=
  match s.toList.dropWhile fun c => c ≠ sep with
  | [] => none
  | _ :: after => some (String.ofList (s.toList.takeWhile fun c => c ≠ sep), String.ofList after)

/-- `str::parse::<u16>`: an optional plus sign and at least one digit. -/
def parseU16 (chars : List Char) : Option Nat :=
  let digits := if chars.head? = some '+' then chars.tail else chars
  if digits = [] then none else parseDigits (2 ^ 16) digits 0

/-- The patch that seeds a node of a kind with a value. -/
def NodeKind.seed (value : Option String) (persist : Bool) : NodeKind → Except String NodePatch
  | .bindMount => .ok { hostPath := value }
  | .port =>
    match value with
    | none => .ok {}
    | some v =>
      match parseU16 v.toList with
      | some n => .ok { portSet := some n }
      | none => .error s!"invalid port {debugStr v}"
  | .note => .ok { text := value }
  | .midiIn | .midiOut => .ok { midiDevice := value }
  | .volume => .ok { persist := if persist then some true else none }
  | .hostService =>
    match value with
    | none => .ok {}
    | some v =>
      match splitOnce '=' v with
      | some (name, target) => .ok { serviceName := some name, serviceTarget := some target }
      | none => .ok { serviceTarget := some v }
  | _ => .ok {}

/-- `is_empty_patch`: the fields it asks about are not all there are. -/
def NodePatch.isEmpty (p : NodePatch) : Bool :=
  p.args.isNone && p.hostPath.isNone && p.persist.isNone && p.portSet.isNone && p.portDelta.isNone &&
    p.text.isNone && p.pos.isNone && p.size.isNone && p.serviceName.isNone && p.serviceTarget.isNone

/-- A multicast bridge's interface and groups, as its value gives them. -/
def mcastValue (v : String) : Option String × List String :=
  match splitOnce '=' v with
  | some (iface, groups) => (some iface, splitWhitespace groups)
  | none => (none, splitWhitespace v)

/-- The command that configures a multicast bridge. -/
def mcastFollows (id : NodeId) (value : Option String) : List Command :=
  match value.filter fun v => trim v ≠ "" with
  | some v => [.setMulticast id (mcastValue v).1 (mcastValue v).2]
  | none => []

/-- Where a call stands. -/
inductive Phase where
  | begins
  | creates (kind : NodeKind) (pos : Vec2) (ws : NodeId) (before : List NodeId)
  | looks (before : List NodeId)
  | sends (id : NodeId) (cmd : Command) (rest : List Command)
  | ended (result : Except String String)

namespace Call

/-- The commands that configure the node `id`. -/
def follows (id : NodeId) : Call → Except String (List Command)
  | add _ args => .ok [.update id { args := some (" ".intercalate args) }]
  | create kind value persist =>
    (kind.seed value persist).map fun patch =>
      (if patch.isEmpty then [] else [.update id patch]) ++
        if kind = .multicast then mcastFollows id value else []

/-- What a call prints at its end. -/
def report (id : Option NodeId) : Call → String
  | add name _ => s!"added {name}"
  | create kind _ _ =>
    match id with
    | some id => s!"created {short id} ({kindLabel kind})"
    | none => s!"created a {kindLabel kind} node"

/-- The kind to create: an app by the place of its dependency. -/
def kind (snap : IpcSnapshot) : Call → Except String NodeKind
  | add name _ =>
    match snap.available.findIdx? fun d => d = name with
    | some dep => .ok (.app dep)
    | none =>
      .error (s!"no dependency named {debugStr name}; available: " ++ ", ".intercalate snap.available)
  | create kind _ _ => .ok kind

/-- The first snapshot is read. -/
def starts (snap : IpcSnapshot) (c : Call) : Phase :=
  match c.kind snap with
  | .error e => .ended (.error e)
  | .ok kind =>
    match snap.workspaces.head? with
    | none => .ended (.error "the workspace has no tabs")
    | some ws => .creates kind (cascade snap.nodes.length) ws (snap.nodes.map NodeInfo.id)

/-- The Create is acknowledged. -/
def created (before : List NodeId) : Call → Phase
  | add name [] => .ended (.ok ((add name []).report none))
  | _ => .looks before

/-- The node of a later snapshot that the call takes for its own: the last of its dependency's name
without arguments, or the first that was not there. -/
def finds (snap : IpcSnapshot) (before : List NodeId) : Call → Option NodeId
  | add name _ => (snap.nodes.reverse.find? fun n => n.name = name ∧ n.args = []).map NodeInfo.id
  | create .. => (snap.nodes.map NodeInfo.id).find? fun id => id ∉ before

def goesOn (id : NodeId) (c : Call) : List Command → Phase
  | [] => .ended (.ok (c.report (some id)))
  | cmd :: rest => .sends id cmd rest

/-- A later snapshot is read; a creation is looked for until the deadline. -/
def looked (snap : IpcSnapshot) (before : List NodeId) (late : Bool) (c : Call) : Phase :=
  match c.finds snap before with
  | some id =>
    match c.follows id with
    | .error e => .ended (.error e)
    | .ok cmds => c.goesOn id cmds
  | none =>
    match c with
    | add .. => .ended (.ok (c.report none))
    | create .. => if late then .ended (.ok (c.report none)) else .looks before

end Call

/-! ## The interleaving -/

/-- A command on its way to the loop: whether it is the call's own, and whether the token that
came with it grants what it requires. -/
structure Queued where
  mine : Bool
  granted : Bool
  cmd : Command

/-- A call beside the server's loop.  `made` and `log` are kept for the statements: the node that
the call's Create made, and the graph before and after each command of the call was applied. -/
structure Session (start : Graph) where
  server : Server start
  /-- Whether the loop is in its turn, and has the server's lock. -/
  turn : Bool := false
  queue : List Queued := []
  phase : Phase := .begins
  made : Option NodeId := none
  log : List (Graph × Graph) := []

/-- A call begins. -/
def Session.opens {start : Graph} (s : Server start) (queue : List Queued) : Session start := { server := s, queue }

/-- What happens next, with what the host answers then. -/
inductive SessionEvent where
  /-- The call goes on; `late` is whether its deadline has passed. -/
  | call (h : Host) (late : Bool)
  | others (granted : Bool) (cmd : Command)
  /-- The loop takes a command from the queue. -/
  | serve (h : Host)
  /-- The loop ticks, which ends its turn. -/
  | tick (h : Host)

namespace Session

variable {start : Graph} (w : World) (c : Call)

/-- The commands of the call that are on their way. -/
def mine (x : Session start) : List Command := (x.queue.filter Queued.mine).map Queued.cmd

/-- The local socket's connections bear the token that grants everything. -/
def send (x : Session start) (cmd : Command) : Session start :=
  { x with queue := x.queue ++ [{ mine := true, granted := true, cmd }] }

/-- The call sends a command, or asks for a snapshot and waits for the lock. -/
def call (h : Host) (late : Bool) (x : Session start) : Session start :=
  match x.phase with
  | .begins => if x.turn then x else { x with phase := c.starts (x.server.ipcSnapshot h) }
  | .creates kind pos ws before =>
    { x.send (.create (.node kind pos ws)) with phase := c.created before }
  | .looks before => if x.turn then x else { x with phase := c.looked (x.server.ipcSnapshot h) before late }
  | .sends id cmd rest => { x.send cmd with phase := c.goesOn id rest }
  | .ended _ => x

/-- A command is authorized and applied. -/
def takes (h : Host) (x : Session start) (q : Queued) : Server start :=
  if q.granted then x.server.apply w h q.cmd else x.server

def serve (h : Host) (x : Session start) : Session start :=
  match x.queue with
  | [] => x
  | q :: queue =>
    let server := x.takes w h q
    let x' := { x with server, queue, turn := true }
    if q.mine then
      { x' with
        made := x.made.or (server.graph.nodes.keys.find? fun id => id ∉ x.server.graph.nodes)
        log := x.log ++ [(x.server.graph, server.graph)] }
    else x'

def step (x : Session start) : SessionEvent → Session start
  | .call h late => x.call c h late
  | .others granted cmd => { x with queue := x.queue ++ [{ mine := false, granted, cmd }] }
  | .serve h => x.serve w h
  | .tick h => { x with server := x.server.tick w h, turn := false }

end Session

end Wk
