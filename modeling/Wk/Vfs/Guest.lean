/-
# Wk.Vfs.Guest -- `wasi:filesystem` over one filesystem

What a guest program can ask of its filesystem, in the 0.2 and the 0.3 interface.
A `Machine` is one guest's filesystem with its open descriptors and output streams
and the bytes that live outside of it: the cells of canvas Volumes, the files of
the host and the shared bytes of image layers.  What lies outside this program
answers through `Env`: the provider behind a mount, the host disk, the random
device.  Every request a provider is asked is kept in `sent`.
-/
import Wk.Vfs
import Wk.Provider

namespace Wk.Vfs

open Wk.Library Wk.Provider

set_option autoImplicit false

/-- The `wasi:filesystem` errors this filesystem gives. -/
inductive ErrorCode where
  | noEntry | notDirectory | isDirectory | exist | notPermitted | fileTooLarge | unsupported
  | io | insufficientSpace | notEmpty | crossDevice
  deriving DecidableEq, Repr

/-- What a provider's error looks like to the consumer. -/
def providerErr : FsError → ErrorCode
  | .noEntry => .noEntry
  | .notDir => .notDirectory
  | .isDir => .isDirectory
  | .exist => .exist
  | .notPermitted => .notPermitted
  | .tooLarge => .fileTooLarge
  | .unsupported => .unsupported
  | .io | .dead | .timeout => .io

/-- Upper bound on the size of one in-memory or shared file. -/
def maxFileSize : Nat := 256 * 1024 * 1024

/-- Cap on the bytes one read of a regular file returns. -/
def fileReadChunk : Nat := 32 * 1024

/-- Cap on the bytes one device read produces. -/
def deviceReadChunk : Nat := 1024 * 1024

/-! ## Bytes -/

/-- `data` cut or zero-filled to `size`. -/
def resize (data : Bytes) (size : Nat) : Bytes :=
  data.take size ++ List.replicate (size - data.length) 0

/-- `data` with `bytes` copied in at `offset`, grown if needed. -/
def overwrite (data : Bytes) (offset : Nat) (bytes : Bytes) : Bytes :=
  let grown := resize data (max data.length (offset + bytes.length))
  grown.take offset ++ bytes ++ grown.drop (offset + bytes.length)

/-- Copy `bytes` into `data` at `offset`, unless that passes the size cap. -/
def writeAt (data : Bytes) (offset : Nat) (bytes : Bytes) : Option Bytes :=
  if maxFileSize < offset + bytes.length then none else some (overwrite data offset bytes)

/-- Up to `len` bytes of `data` from `offset`, and whether that reached the end. -/
def readAt (data : Bytes) (offset len : Nat) : Bytes × Bool :=
  ((data.drop offset).take len, data.length ≤ min offset data.length + len)

/-- A layer file's bytes: in memory already, or read from the layer store on first
use and kept from then on. -/
structure LayerBytes where
  /-- Byte length, from the tar header. -/
  len : Nat
  cell : Option Bytes
  /-- The recipe of a lazy file: what reading its slice of the tar gives, if it can
  be read. -/
  src : Option (Option Bytes)
  deriving DecidableEq, Repr

namespace LayerBytes

/-- Bytes already in memory. -/
def eager (bytes : Bytes) : LayerBytes := ⟨bytes.length, some bytes, none⟩

/-- The bytes; a slice that cannot be read is empty. -/
def bytes (layer : LayerBytes) : Bytes := layer.cell.getD ((layer.src.getD none).getD [])

/-- The layer file once its bytes have been asked for. -/
def materialized (layer : LayerBytes) : LayerBytes := { layer with cell := some layer.bytes }

end LayerBytes

/-- The bytes that live outside every filesystem. -/
structure Backing where
  /-- The shared bytes of canvas Volumes. -/
  cells : Table Nat Bytes
  /-- The files of the host. -/
  disk : Table String Bytes
  /-- The files of image layers. -/
  layers : Table Nat LayerBytes

namespace Backing

def cell (b : Backing) (i : Nat) : Bytes := (b.cells.lookup i).getD []

def file (b : Backing) (path : String) : Bytes := (b.disk.lookup path).getD []

def layer (b : Backing) (i : Nat) : Bytes := ((b.layers.lookup i).map LayerBytes.bytes).getD []

def setCell (b : Backing) (i : Nat) (bytes : Bytes) : Backing :=
  { b with cells := b.cells.insert i bytes }

def setFile (b : Backing) (path : String) (bytes : Bytes) : Backing :=
  { b with disk := b.disk.insert path bytes }

/-- Ask for a layer file's bytes. -/
def materialize (b : Backing) (i : Nat) : Backing :=
  match b.layers.lookup i with
  | some layer => { b with layers := b.layers.insert i layer.materialized }
  | none => b

end Backing

/-! ## The machine -/

/-- An open entry behind a provider mount. -/
structure RemoteDesc where
  conn : NodeId
  /-- The serve loop `handle` belongs to. -/
  generation : Nat
  /-- Path relative to the provider's root. -/
  path : String
  handle : Option Nat
  kind : FsEntryKind
  readonly : Bool
  deriving DecidableEq, Repr

/-- Where a descriptor points. -/
inductive DescPlace where
  | node (id : Nat)
  | remote (r : RemoteDesc)
  deriving DecidableEq, Repr

/-- Where an output stream's bytes land. -/
inductive WriteDst where
  /-- A private file; a layer file is copied up on the first write. -/
  | node (id : Nat)
  | shared (cell : Nat)
  | host (path : String)
  | null
  | remote (r : RemoteDesc) (handle : Nat)
  deriving DecidableEq, Repr

/-- An output stream with its moving offset. -/
structure OutputStream where
  dst : WriteDst
  offset : Nat
  deriving DecidableEq, Repr

/-- One guest: its filesystem and the resources it holds. -/
structure Guest where
  fs : Fs
  fds : Table Nat DescPlace
  streams : Table Nat OutputStream
  /-- The next resource handle; handles are opaque to the guest. -/
  next : Nat

/-- A guest with everything outside of it that its files reach. -/
structure Machine extends Guest where
  backing : Backing
  /-- The requests forwarded to providers, latest first. -/
  sent : List (NodeId × FsOp)

/-- What answers from outside during one operation. -/
structure Env where
  reply : NodeId → FsOp → FsResult
  /-- The current serve loop of each provider. -/
  generation : NodeId → Nat
  /-- Whether the host disk takes a write. -/
  diskOk : Bool
  random : Nat → Bytes

structure OpenFlags where
  create : Bool := false
  directory : Bool := false
  exclusive : Bool := false
  truncate : Bool := false
  deriving DecidableEq, Repr

/-- What an operation returns to the guest. -/
inductive Answer where
  | ok
  | descriptor (fd : Nat)
  | stream (handle : Nat)
  | written (count : Nat)
  | data (bytes : Bytes) (eof : Bool)
  | code (e : ErrorCode)
  /-- The stream is closed. -/
  | closed
  /-- No such resource. -/
  | trap
  deriving DecidableEq, Repr

/-- Join a path onto a remote base path; a leading slash cannot leave the provider. -/
def remoteJoin (base path : String) : String :=
  "/".intercalate (components base ++ components path)

/-- What a node is to a data operation. -/
inductive Kind where
  | file | ro
  | shared (cell : Nat)
  | host (path : String)
  | dir | null | zero | random | missing
  deriving DecidableEq, Repr

namespace Fs

def nodeKind (fs : Fs) (id : Nat) : Kind :=
  match fs.nodes.lookup id with
  | some (.file _) => .file
  | some (.roFile _) => .ro
  | some (.shared cell) => .shared cell
  | some (.host path) => .host path
  | some (.dir _) | some (.provider _) => .dir
  | some .null => .null
  | some .zero => .zero
  | some .random => .random
  | some (.symlink _) | none => .missing

def isDir (fs : Fs) (id : Nat) : Bool :=
  match fs.nodes.lookup id with
  | some (.dir _) => true
  | _ => false

/-- Put the bytes of `id` to a private file. -/
def setBytes (fs : Fs) (id : Nat) (bytes : Bytes) : Fs :=
  { fs with nodes := fs.nodes.insert id (.file bytes) }

/-- Remove the entry `name` of the directory `parent`, if that is one. -/
def removeChild (fs : Fs) (parent : Nat) (name : String) : Fs :=
  match fs.nodes.lookup parent with
  | some (.dir children) => { fs with nodes := fs.nodes.insert parent (.dir (children.erase name)) }
  | _ => fs

/-- The child `name` of the directory `parent`. -/
def child (fs : Fs) (parent : Nat) (name : String) : Option Nat :=
  match fs.nodes.lookup parent with
  | some (.dir children) => children.lookup name
  | _ => none

/-- Add a node under a fresh id and name it. -/
def enter (fs : Fs) (parent : Nat) (name : String) (node : FsNode) : Fs :=
  (fs.alloc node).2.addChild parent name fs.next

/-- Move the entry `oldName` of `oldParent`, which names `id`, to `newName` of
`newParent`. -/
def move (fs : Fs) (oldParent : Nat) (oldName : String) (newParent : Nat) (newName : String)
    (id : Nat) : Fs :=
  (fs.removeChild oldParent oldName).addChild newParent newName id

/-- Remove the entry `name` of `parent`, which names `id`, and the node with it once
nothing names it and no descriptor is open onto it. -/
def unlink (fs : Fs) (parent : Nat) (name : String) (id : Nat) : Fs :=
  let fs := fs.removeChild parent name
  if !fs.nodeIsReferenced id && fs.openCount id = 0 then { fs with nodes := fs.nodes.erase id }
  else fs

end Fs

namespace RemoteDesc

/-- Whether the serve loop that minted `handle` would receive it. -/
def live (r : RemoteDesc) (env : Env) : Bool := env.generation r.conn = r.generation

end RemoteDesc

namespace Machine

variable (m : Machine) (env : Env)

/-- Hand a descriptor to the guest. -/
def push (place : DescPlace) : Machine × Answer :=
  ({ m with fds := m.fds.insert m.next place, next := m.next + 1 }, .descriptor m.next)

/-- Hand an output stream to the guest. -/
def pushStream (dst : WriteDst) (offset : Nat) : Machine × Answer :=
  ({ m with streams := m.streams.insert m.next ⟨dst, offset⟩, next := m.next + 1 }, .stream m.next)

/-- Note a request that goes to a provider. -/
def send (conn : NodeId) (op : FsOp) : Machine := { m with sent := (conn, op) :: m.sent }

/-- Forward an operation with nothing to return. -/
def forward (conn : NodeId) (op : FsOp) : Machine × Answer :=
  match env.reply conn op with
  | .ok _ => (m.send conn op, .ok)
  | .error e => (m.send conn op, .code (providerErr e))

/-- Open a descriptor onto a node, counting the reference. -/
def openDesc (id : Nat) : Machine × Answer :=
  { m with fs := m.fs.openRef id }.push (.node id)

/-- If `id` is a layer file, ask for its bytes. -/
def touchLayer (id : Nat) : Machine :=
  match m.fs.nodes.lookup id with
  | some (.roFile layer) => { m with backing := m.backing.materialize layer }
  | _ => m

/-- If `id` is a layer file, replace it by a private copy of its bytes. -/
def copyUp (id : Nat) : Machine :=
  match m.fs.nodes.lookup id with
  | some (.roFile layer) =>
    { m with
      fs := m.fs.setBytes id (m.backing.layer layer)
      backing := m.backing.materialize layer }
  | _ => m

/-- Where `path` from a descriptor lands. -/
def target (place : DescPlace) (path : String) (follow : Bool) : Fs.Resolved :=
  match place with
  | .node start => m.fs.resolvePlace start path follow
  | .remote r => .remote r.conn (remoteJoin r.path path) r.readonly

/-! ## Opening -/

/-- The descriptor onto the root a guest starts with. -/
def getDirectories : Machine × Answer := m.openDesc root

/-- Forward an open across a provider mount. -/
def remoteOpen (conn : NodeId) (readonly : Bool) (path : String) (flags : OpenFlags) :
    Machine × Answer :=
  if readonly && (flags.create || flags.truncate) then (m, .code .notPermitted)
  else
    let op := FsOp.open path flags.create flags.truncate flags.exclusive
    match env.reply conn op with
    | .ok (.opened o) =>
      if flags.directory && o.kind ≠ .dir then
        ((m.send conn op).send conn (.release o.handle), .code .notDirectory)
      else
        (m.send conn op).push
          (.remote ⟨conn, env.generation conn, path, some o.handle, o.kind, readonly⟩)
    | .ok _ => (m.send conn op, .code .io)
    | .error e => (m.send conn op, .code (providerErr e))

/-- Empty a file that is opened with `truncate`. -/
def truncate (id : Nat) : Machine :=
  match m.fs.nodes.lookup id with
  | some (.file _) | some (.roFile _) => { m with fs := m.fs.setBytes id [] }
  | some (.shared cell) => { m with backing := m.backing.setCell cell [] }
  | some (.host path) => if env.diskOk then { m with backing := m.backing.setFile path [] } else m
  | _ => m

/-- Open a node that is there. -/
def openExisting (id : Nat) (flags : OpenFlags) : Machine × Answer :=
  if flags.exclusive then (m, .code .exist)
  else if flags.truncate && id ∈ m.fs.readonly then (m, .code .notPermitted)
  else
    let m := if flags.truncate then m.truncate env id else m
    if flags.directory && !m.fs.isDir id then (m, .code .notDirectory)
    else m.openDesc id

/-- Create a file where nothing was found. -/
def openNew (start : Nat) (path : String) (flags : OpenFlags) : Machine × Answer :=
  if !flags.create then (m, .code .noEntry)
  else
    match m.fs.resolveParent start path with
    | none => (m, .code .noEntry)
    | some (parent, name) =>
      if m.fs.atCapacity then (m, .code .insufficientSpace)
      else { m with fs := m.fs.enter parent name (.file []) }.openDesc m.fs.next

def openAt (fd : Nat) (follow : Bool) (path : String) (flags : OpenFlags) : Machine × Answer :=
  match m.fds.lookup fd with
  | none => (m, .trap)
  | some (.remote r) => m.remoteOpen env r.conn r.readonly (remoteJoin r.path path) flags
  | some (.node start) =>
    match m.fs.resolvePlace start path follow with
    | .remote conn rest readonly => m.remoteOpen env conn readonly rest flags
    | _ =>
      match m.fs.resolveAt start path follow with
      | some id => m.openExisting env id flags
      | none => m.openNew start path flags

/-- Drop a descriptor. -/
def close (fd : Nat) : Machine × Answer :=
  match m.fds.lookup fd with
  | none => (m, .trap)
  | some (.node id) => ({ m with fs := m.fs.closeRef id, fds := m.fds.erase fd }, .ok)
  | some (.remote r) =>
    let closed := { m with fds := m.fds.erase fd }
    match r.handle with
    | some handle =>
      if r.live env then (closed.send r.conn (.release handle), .ok) else (closed, .ok)
    | none => (closed, .ok)

/-! ## Names -/

def createDirectoryAt (fd : Nat) (path : String) : Machine × Answer :=
  match m.fds.lookup fd with
  | none => (m, .trap)
  | some place =>
    match m.target place path true with
    | .remote conn rest readonly =>
      if readonly then (m, .code .notPermitted) else m.forward env conn (.mkdir rest)
    | .node _ => (m, .code .exist)
    | .missing =>
      match place with
      | .remote _ => (m, .code .noEntry)
      | .node start =>
        match m.fs.resolveParent start path with
        | none => (m, .code .noEntry)
        | some (parent, name) =>
          if (m.fs.child parent name).isSome then (m, .code .exist)
          else if m.fs.atCapacity then (m, .code .insufficientSpace)
          else ({ m with fs := m.fs.enter parent name (.dir ∅) }, .ok)

def linkAt (fd : Nat) (follow : Bool) (oldPath : String) (newFd : Nat) (newPath : String) :
    Machine × Answer :=
  match m.fds.lookup fd, m.fds.lookup newFd with
  | some (.node oldStart), some (.node newStart) =>
    match m.fs.resolveAt oldStart oldPath follow with
    | none => (m, .code .noEntry)
    | some id =>
      match m.fs.nodes.lookup id with
      | some (.dir _) => (m, .code .notPermitted)
      | none => (m, .code .noEntry)
      | some _ =>
        if id ∈ m.fs.readonly then (m, .code .notPermitted)
        else
          match m.fs.resolveParent newStart newPath with
          | none => (m, .code .noEntry)
          | some (parent, name) =>
            if (m.fs.child parent name).isSome then (m, .code .exist)
            else ({ m with fs := m.fs.addChild parent name id }, .ok)
  | some _, some _ => (m, .code .unsupported)
  | _, _ => (m, .trap)

def symlinkAt (fd : Nat) (srcPath destPath : String) : Machine × Answer :=
  match m.fds.lookup fd with
  | none => (m, .trap)
  | some (.remote _) => (m, .code .unsupported)
  | some (.node start) =>
    match m.fs.resolvePlace start destPath false with
    | .remote .. => (m, .code .unsupported)
    | _ =>
      match m.fs.resolveParent start destPath with
      | none => (m, .code .noEntry)
      | some (parent, name) =>
        if (m.fs.child parent name).isSome then (m, .code .exist)
        else if m.fs.atCapacity then (m, .code .insufficientSpace)
        else ({ m with fs := m.fs.enter parent name (.symlink srcPath) }, .ok)

/-- The local half of a rename.  Neither the node the target named so far nor
whether the target lies inside what moves is looked at. -/
def renameHere (oldStart : Nat) (oldPath : String) (newStart : Nat) (newPath : String) :
    Machine × Answer :=
  match m.fs.resolveParent oldStart oldPath with
  | none => (m, .code .noEntry)
  | some (oldParent, oldName) =>
    match m.fs.child oldParent oldName with
    | none => (m, .code .noEntry)
    | some id =>
      if id ∈ m.fs.readonly then (m, .code .notPermitted)
      else
        match m.fs.resolveParent newStart newPath with
        | none => (m, .code .noEntry)
        | some (newParent, newName) =>
          ({ m with fs := m.fs.move oldParent oldName newParent newName id }, .ok)

def renameAt (fd : Nat) (oldPath : String) (newFd : Nat) (newPath : String) : Machine × Answer :=
  match m.fds.lookup fd, m.fds.lookup newFd with
  | some oldPlace, some newPlace =>
    match m.target oldPlace oldPath false, m.target newPlace newPath false with
    | .remote a source readonly, .remote b dest _ =>
      if a ≠ b then (m, .code .crossDevice)
      else if readonly then (m, .code .notPermitted)
      else m.forward env a (.rename source dest)
    | .remote .., _ => (m, .code .crossDevice)
    | _, .remote .. => (m, .code .crossDevice)
    | _, _ =>
      match oldPlace, newPlace with
      | .node oldStart, .node newStart => m.renameHere oldStart oldPath newStart newPath
      | _, _ => (m, .code .crossDevice)
  | _, _ => (m, .trap)

/-- Whether a node may be removed as a directory (`dir`) or as a file. -/
def removable (dir : Bool) : Option FsNode → Except ErrorCode Unit
  | some (.dir children) =>
    if !dir then .error .isDirectory
    else if children.entries.isEmpty then .ok () else .error .notEmpty
  | none => .error (if dir then .notDirectory else .isDirectory)
  | some _ => if dir then .error .notDirectory else .ok ()

/-- Remove a file, or an empty directory if `dir`. -/
def unlink (fd : Nat) (path : String) (dir : Bool) : Machine × Answer :=
  match m.fds.lookup fd with
  | none => (m, .trap)
  | some place =>
    match m.target place path false with
    | .remote conn rest readonly =>
      if readonly then (m, .code .notPermitted)
      else m.forward env conn (if dir then .rmdir rest else .unlink rest)
    | _ =>
      match place with
      | .remote _ => (m, .code .noEntry)
      | .node start =>
        match m.fs.resolveParent start path with
        | none => (m, .code .noEntry)
        | some (parent, name) =>
          match m.fs.child parent name with
          | none => (m, .code .noEntry)
          | some id =>
            if id ∈ m.fs.readonly then (m, .code .notPermitted)
            else
              match removable dir (m.fs.nodes.lookup id) with
              | .error e => (m, .code e)
              | .ok () => ({ m with fs := m.fs.unlink parent name id }, .ok)

def unlinkFileAt (fd : Nat) (path : String) : Machine × Answer := m.unlink env fd path false

def removeDirectoryAt (fd : Nat) (path : String) : Machine × Answer := m.unlink env fd path true

end Machine

end Wk.Vfs
