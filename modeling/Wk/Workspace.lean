/-
# Wk.Workspace -- the document model

What a `.wk` file says once parsed: dependencies, and workspaces of placed nodes
(`NodeSnap`) with seven kinds of wiring between them.  The same `NodeSnap` is the
unit of the file, of load-time restore and of the server's undo snapshots.

The seven link lists of a workspace are one function `links : WireRel → List Pair`;
the source's seven field names are kept as abbreviations.
-/
import Wk.Library.Table
import Wk.Protocol
import Mathlib

namespace Wk

open Wk.Library

set_option autoImplicit false

/-! ## Text forms -/

namespace NodeId

def crockford : List Char := "0123456789ABCDEFGHJKMNPQRSTVWXYZ".toList

/-- The base32 digits of `n`, least significant first. -/
def digits : Nat → Nat → List Char
  | 0, _ => []
  | k + 1, n => crockford.getD (n % 32) '0' :: digits k (n / 32)

/-- 26-character Crockford base32, most significant digit first. -/
def toText (id : NodeId) : String := String.ofList (digits 26 id).reverse

end NodeId

/-- Rust's `{:?}` of a string, for the characters a name is made of. -/
def debugStr (s : String) : String :=
  let escaped := s.toList.flatMap fun c =>
    if c = '"' then ['\\', '"'] else if c = '\\' then ['\\', '\\']
    else if c = '\n' then ['\\', 'n'] else if c = '\r' then ['\\', 'r']
    else if c = '\t' then ['\\', 't'] else if c = '\x00' then ['\\', '0'] else [c]
  "\"" ++ String.ofList escaped ++ "\""

/-- Rust's `char::is_whitespace`. -/
def isWhitespace (c : Char) : Bool :=
  let n := c.toNat
  (9 ≤ n && n ≤ 13) || n = 32 || n = 0x85 || n = 0xA0 || n = 0x1680 ||
    (0x2000 ≤ n && n ≤ 0x200A) || n = 0x2028 || n = 0x2029 || n = 0x202F || n = 0x205F || n = 0x3000

/-- `str::trim`. -/
def trim (s : String) : String :=
  String.ofList ((s.toList.dropWhile isWhitespace).reverse.dropWhile isWhitespace).reverse

/-- Split into runs of non-whitespace; `word` is the run being read, reversed. -/
def splitWords : List Char → List Char → List (List Char)
  | [], word => if word = [] then [] else [word.reverse]
  | c :: rest, word =>
    if isWhitespace c then (if word = [] then [] else [word.reverse]) ++ splitWords rest []
    else splitWords rest (c :: word)

/-- `str::split_whitespace`. -/
def splitWhitespace (s : String) : List String := (splitWords s.toList []).map String.ofList

/-- `strip_prefix`. -/
def stripLead (lead : String) (s : String) : Option (List Char) :=
  if lead.toList.isPrefixOf s.toList then some (s.toList.drop lead.length) else none

/-- One lowercase hexadecimal digit. -/
def hexDigit (n : Nat) : Char := "0123456789abcdef".toList.getD n '0'

/-- The value of a hexadecimal digit, upper or lower case. -/
def hexValue (c : Char) : Option Nat :=
  if '0' ≤ c ∧ c ≤ '9' then some (c.toNat - '0'.toNat)
  else if 'a' ≤ c ∧ c ≤ 'f' then some (c.toNat - 'a'.toNat + 10)
  else if 'A' ≤ c ∧ c ≤ 'F' then some (c.toNat - 'A'.toNat + 10)
  else none

/-- Hex-encode arbitrary bytes (capability tokens) for persistence. -/
def bytesHex (bytes : Bytes) : String :=
  String.ofList (bytes.flatMap fun b => [hexDigit (b.toNat / 16), hexDigit (b.toNat % 16)])

/-- `u8::from_str_radix(_, 16)` of a two-character slice.  A leading plus sign is
accepted. -/
def hexByte (hi lo : Char) : Option UInt8 :=
  if hi = '+' then (hexValue lo).map fun l => UInt8.ofNat l
  else (hexValue hi).bind fun h => (hexValue lo).map fun l => UInt8.ofNat (16 * h + l)

/-- Decode the hex digits two at a time. -/
def hexPairs : List Char → Option Bytes
  | [] => some []
  | [_] => none
  | hi :: lo :: rest => (hexByte hi lo).bind fun b => (hexPairs rest).map (b :: ·)

/-- Decode hex back to bytes, if well-formed. -/
def hexBytes (s : String) : Option Bytes := hexPairs s.toList

/-- Decode a persisted uplink secret: exactly 32 bytes. -/
def secretBytes (s : String) : Option Bytes :=
  if s.utf8ByteSize ≠ 64 then none else hexPairs s.toList

/-! ## Dependencies -/

/-- Where a dependency's wasm comes from. -/
inductive Source where
  | path (p : String)
  | oci (reference : String)
  | dockerfile (p : String)
  | image (reference : String)
  deriving DecidableEq, Repr

/-- One workspace dependency: a short name resolving to a plugin source. -/
structure Dependency where
  name : String
  source : Source
  args : List String := []
  description : Option String := none
  deriving DecidableEq, Repr

/-! ## Placed nodes -/

/-- The kind-specific part of a `NodeSnap`. -/
inductive SnapKind where
  | app (dep : String) (name : Option String) (options : List F32) (args : List String)
      (token : Option String)
  | volume (name : String) (persist : Bool)
  | bindMount (path : String)
  | port (port : Nat)
  | net (gateway : Bool)
  | router
  | iroh (secret : Option String) (peer : Option String)
  | veilid (secret : Option String) (peer : Option String)
  | note (text : String)
  | capture
  | clipboard
  | api
  | midiIn (device : String)
  | midiOut (device : String)
  | hostService (name : String) (target : String)
  | multicast (iface : Option String) (groups : List String)
  | inPort (name : String) (kind : PortKind)
  | outPort (name : String) (kind : PortKind)
  | group (definition : String) (name : Option String) (inWires outWires : List (String × NodeId))
  deriving DecidableEq, Repr

namespace SnapKind

/-- A boundary port's direction and connection kind, if this is one. -/
def boundary : SnapKind → Option (PortDir × PortKind)
  | inPort _ kind => some (.inward, kind)
  | outPort _ kind => some (.outward, kind)
  | _ => none

def isGroup : SnapKind → Bool
  | group .. => true
  | _ => false

/-- The definition a group instantiates. -/
def instantiates : SnapKind → Option String
  | group definition .. => some definition
  | _ => none

end SnapKind

/-- One placed canvas node, of any kind. -/
structure NodeSnap where
  id : NodeId
  pos : Vec2 := (0, 0)
  size : Vec2 := (0, 0)
  pos3d : Option Pose := none
  panel3d : Bool := true
  kind : SnapKind
  deriving DecidableEq, Repr

/-! ## Workspaces and documents -/

/-- The seven wire relations of a canvas. -/
inductive WireRel where
  | connection | midi | serve | netLink | captureLink | clipboardLink | apiLink
  deriving DecidableEq, Repr

namespace WireRel

def all : List WireRel :=
  [connection, midi, serve, netLink, captureLink, clipboardLink, apiLink]

/-- The keyword of a wire line. -/
def word : WireRel → String
  | connection => "connection"
  | midi => "midi"
  | serve => "serve"
  | netLink => "netlink"
  | captureLink => "capturelink"
  | clipboardLink => "clipboardlink"
  | apiLink => "apilink"

@[simp] theorem mem_all (r : WireRel) : r ∈ all := by cases r <;> decide

/-- Two wires are the same when their relations and ends are. -/
instance : LawfulBEq (WireRel × NodeId × NodeId) := inferInstance

end WireRel

/-- One workspace: a canvas of nodes and the wiring between them. -/
structure Workspace where
  id : NodeId
  name : Option String := none
  tab : Bool := true
  nodes : List NodeSnap := []
  links : WireRel → List Pair := fun _ => []
  mountPaths : Table Pair String := ∅
  midiChannels : Table Pair Nat := ∅
  servePorts : Table Pair Nat := ∅

namespace Workspace

abbrev connections (ws : Workspace) : List Pair := ws.links .connection
abbrev midi (ws : Workspace) : List Pair := ws.links .midi
abbrev serves (ws : Workspace) : List Pair := ws.links .serve
abbrev netLinks (ws : Workspace) : List Pair := ws.links .netLink

/-- The `group` nodes of a workspace, in file order. -/
def groupsIn (ws : Workspace) : List NodeSnap := ws.nodes.filter fun n => n.kind.isGroup

end Workspace

/-- A resolved `.wk` file: shared dependencies and one or more workspaces. -/
structure Document where
  imports : List String := []
  dependencies : List Dependency := []
  workspaces : List Workspace
  importedDeps : List String := []
  importedWorkspaces : List NodeId := []
  /-- The tab invented because the document had none. -/
  scratchTab : Option NodeId := none

namespace Document

/-- Every node a document writes, on a tab or in a definition. -/
def placed (doc : Document) : List NodeSnap := doc.workspaces.flatMap Workspace.nodes

/-- No node id is written twice. -/
def UniqueIds (doc : Document) : Prop := (doc.placed.map NodeSnap.id).Nodup

instance (doc : Document) : Decidable doc.UniqueIds :=
  inferInstanceAs (Decidable (doc.placed.map NodeSnap.id).Nodup)

theorem UniqueIds.eq_of_id {doc : Document} (unique : doc.UniqueIds) {n n' : NodeSnap}
    (here : n ∈ doc.placed) (there : n' ∈ doc.placed) (same : n.id = n'.id) : n = n' :=
  List.inj_on_of_nodup_map unique here there same

/-- What the loader promises of a resolved document: it keeps the first of two
workspaces with one id, and adds a tab where there is none. -/
structure Resolved (doc : Document) : Prop where
  ids : (doc.workspaces.map Workspace.id).Nodup
  tab : ∃ ws ∈ doc.workspaces, ws.tab = true

end Document

/-- The rows of an ordered map, in key order: `BTreeMap` iteration. -/
def inKeyOrder {β : Type} (t : Table Pair β) : List (Pair × β) :=
  (Table.rows t).insertionSort fun x y => x.1.1 < y.1.1 ∨ (x.1.1 = y.1.1 ∧ x.1.2 ≤ y.1.2)

end Wk
