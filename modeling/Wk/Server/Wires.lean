/-
# Wk.Server.Wires -- making and unmaking connections

A wire is toggled by its own relation and then reconciled.  `connectToggle` decides
which wire two nodes form; `syncAppLinkNets` keeps one private net per pair of
directly wired apps that both do networking.
-/
import Wk.Server.Mounts

namespace Wk

open Wk.Library

set_option autoImplicit false

namespace Server

variable {start : Graph}

/-- Wire (or unwire) a file node into an app. -/
def toggleFile (w : World) (h : Host) (s : Server start) (file app : NodeId) : Server start :=
  (s.perform (.toggle .connection file app)).syncMounts w h

/-- The routes follow the MIDI links; the channels of links that are gone go. -/
def syncMidi (s : Server start) : Server start := s.perform .pruneMidiChannels

/-- The localhost servers follow the serve links; the ports of links that are gone
go. -/
def syncServes (s : Server start) : Server start := s.perform .pruneServePorts

/-- The pairs of directly wired apps that both import sockets. -/
def wantedNets (h : Host) (s : Server start) : List Pair :=
  ((s.graph.midiLinks.filter fun l =>
    s.runtime.importsNet h l.1 && s.runtime.importsNet h l.2).map
      fun l => Graph.canonicalPair l.1 l.2).dedup

/-- Part the private nets no longer wanted, then mint the missing ones. -/
def syncAppLinkNets (w : World) (h : Host) (s : Server start) : Server start :=
  let want := s.wantedNets h
  let stale := h.pairs (s.graph.appLinkNets.keys.filter fun key => key ∉ want)
  let s := stale.foldl (fun s key => s.perform (.dropNet key)) s
  (h.pairs want).foldl (fun s key =>
    if key ∈ s.graph.appLinkNets then s
    else
      let (net, s) := s.allocId w
      s.perform (.mintNet key net)) s

/-- Wire (or unwire) one node's MIDI output into another's input. -/
def toggleMidi (w : World) (h : Host) (s : Server start) (src dst : NodeId) : Server start :=
  ((s.perform (.toggle .midi src dst)).syncMidi).syncAppLinkNets w h

/-- Wire (or unwire) a served node to a HostPort. -/
def toggleServe (s : Server start) (served hostport : NodeId) : Server start :=
  (s.perform (.toggle .serve served hostport)).syncServes

/-- Wire (or unwire) a member onto a Network. -/
def toggleNet (s : Server start) (app net : NodeId) : Server start :=
  s.perform (.toggle .netLink app net)

/-- Toggle a screen-capture, clipboard or API grant. -/
def toggleGrant (s : Server start) (r : WireRel) (app node : NodeId) : Server start :=
  s.perform (.toggle r app node)

/-- Toggle one wire through its relation's own path. -/
def toggleRel (w : World) (h : Host) (s : Server start) (r : WireRel) (a b : NodeId) :
    Server start :=
  match r with
  | .connection => s.toggleFile w h a b
  | .midi => s.toggleMidi w h a b
  | .serve => s.toggleServe a b
  | .netLink => s.toggleNet a b
  | .captureLink => s.toggleGrant .captureLink a b
  | .clipboardLink => s.toggleGrant .clipboardLink a b
  | .apiLink => s.toggleGrant .apiLink a b

/-- Toggle a connection between two nodes by their kinds. -/
def connectToggle (w : World) (h : Host) (s : Server start) (a b : NodeId) : Server start :=
  match Wiring.classify a b (s.graph.classOf a) (s.graph.classOf b) with
  | some (.bind file app) => s.toggleFile w h file app
  | some (.serve served hostport) => s.toggleServe served hostport
  | some (.net app net) => s.toggleNet app net
  | some (.capture app cap) => s.toggleGrant .captureLink app cap
  | some (.clipboard app clip) => s.toggleGrant .clipboardLink app clip
  | some (.api app api) => s.toggleGrant .apiLink app api
  | some (.midi src dst) =>
    -- Whether two apps form a MIDI wire or a mount is unknowable while one of
    -- them compiles, so the wire waits.
    if s.runtime.isLoading h src || s.runtime.isLoading h dst then
      { s with pendingAppWires := s.pendingAppWires ++ [(src, dst)] }
    else if s.runtime.servesFs h src then s.toggleFile w h src dst
    else if s.runtime.servesFs h dst then s.toggleFile w h dst src
    else s.toggleMidi w h src dst
  | none => s

/-- Apply the wires that waited on a compiling endpoint. -/
def syncPendingAppWires (w : World) (h : Host) (s : Server start) : Server start :=
  s.pendingAppWires.foldl (fun s l =>
    if !s.nodeExists l.1 || !s.nodeExists l.2 then s
    else if s.runtime.isLoading h l.1 || s.runtime.isLoading h l.2 then
      { s with pendingAppWires := s.pendingAppWires ++ [l] }
    else if s.graph.wired l.1 l.2 then s
    else s.connectToggle w h l.1 l.2) { s with pendingAppWires := [] }

/-- The relation a wire belongs to. -/
def wireRel : Wire → WireRel
  | .bind .. => .connection
  | .midi .. => .midi
  | .serve .. => .serve
  | .net .. => .netLink
  | .capture .. => .captureLink
  | .clipboard .. => .clipboardLink
  | .api .. => .apiLink

/-- Whether the given wire is in its relation. -/
def wireExists (s : Server start) (wire : Wire) : Bool := wire.ends ∈ s.graph.links (wireRel wire)

/-- Toggle a wire off, if it is there. -/
def unwireRel (w : World) (h : Host) (s : Server start) (r : WireRel) (a b : NodeId) :
    Server start :=
  if (a, b) ∈ s.graph.links r then s.toggleRel w h r a b else s

/-- Remove the given connection. -/
def disconnectWire (w : World) (h : Host) (s : Server start) (wire : Wire) : Server start :=
  s.unwireRel w h (wireRel wire) wire.ends.1 wire.ends.2

/-- Re-establish connections between live nodes. -/
def rewire (w : World) (h : Host) (s : Server start) (wires : List Pair) : Server start :=
  wires.foldl (fun s l =>
    if s.nodeExists l.1 && s.nodeExists l.2 && !s.graph.wired l.1 l.2 then
      s.connectToggle w h l.1 l.2
    else s) s

/-- Set which MIDI channel a wire carries; anything but 1 to 16 widens it. -/
def setMidiChannel (s : Server start) (src dst : NodeId) (channel : Nat) : Server start :=
  if (src, dst) ∉ s.graph.midiLinks then s
  else
    (s.perform (.midiChannel (src, dst)
      (if 1 ≤ channel ∧ channel ≤ 16 then some channel else none))).syncMidi

/-- Set (or, with 0, clear) the guest port a serve wire maps to. -/
def setServePort (s : Server start) (served hostport : NodeId) (container : Nat) : Server start :=
  if (served, hostport) ∉ s.graph.serveLinks then s
  else
    (s.perform (.servePort (served, hostport)
      (if container = 0 then none else some container))).syncServes

/-- The wires a saved workspace writes, as `(relation, a, b)`. -/
def wiresOf (saved : Workspace) : List (WireRel × NodeId × NodeId) :=
  WireRel.all.flatMap fun r => (saved.links r).map fun l => (r, l.1, l.2)

/-- Make one saved wire as its own kind, if both ends are there and unjoined; the
wires actually made are collected. -/
def applyWire (w : World) (h : Host)
    (acc : Server start × List (WireRel × NodeId × NodeId)) (wire : WireRel × NodeId × NodeId) :
    Server start × List (WireRel × NodeId × NodeId) :=
  let (s, made) := acc
  let (r, a, b) := wire
  if s.nodeExists a && s.nodeExists b && !s.graph.wired a b then
    (s.toggleRel w h r a b, made ++ [wire])
  else acc

/-- Re-establish one saved workspace's wiring and overrides; returns the wires this
call made. -/
def applyWires (w : World) (h : Host) (s : Server start) (saved : Workspace) :
    Server start × List (WireRel × NodeId × NodeId) :=
  let (s, made) := (wiresOf saved).foldl (applyWire w h) (s, [])
  let s := (inKeyOrder saved.mountPaths).foldl
    (fun s row => s.perform (.mountPath row.1 (some row.2))) s
  let s := s.syncMounts w h
  let s := (inKeyOrder saved.servePorts).foldl
    (fun s row => s.perform (.servePort row.1 (some row.2))) s
  let s := (inKeyOrder saved.midiChannels).foldl
    (fun s row => s.perform (.midiChannel row.1 (some row.2))) s
  (s.syncServes, made)

end Server

end Wk
