/-
# Wk.Vfs.Session -- reading and writing, and sessions of operations

The data half of the guest interface: direct reads and writes, and the output
streams of the 0.2 interface (`OutputStream.write`) and of the 0.3 interface (the
consumer's `write`), which differ in what they report and in how a stream over a
provider moves on.  `Op` collects everything a guest can ask and `Machine.step`
answers it; `HostOp` is what the host does to the same filesystem in between.
-/
import Wk.Vfs.Guest

namespace Wk.Vfs

open Wk.Library Wk.Provider

set_option autoImplicit false

namespace Machine

variable (m : Machine) (env : Env)

/-! ## Reading -/

/-- The bytes behind a regular file. -/
def contents (id : Nat) : Option Bytes :=
  match m.fs.nodes.lookup id with
  | some (.file data) => some data
  | some (.roFile layer) => some (m.backing.layer layer)
  | some (.shared cell) => some (m.backing.cell cell)
  | some (.host path) => some (m.backing.file path)
  | _ => none

/-- Forward a read of at most `len` bytes. -/
def readRemote (r : RemoteDesc) (offset len : Nat) : Machine × Answer :=
  match r.handle with
  | none => (m, .code .isDirectory)
  | some handle =>
    if !r.live env then (m, .code .io)
    else
      let op := FsOp.read handle offset len
      match env.reply r.conn op with
      | .ok (.data bytes eof) => (m.send r.conn op, .data bytes eof)
      | .ok _ => (m.send r.conn op, .code .io)
      | .error e => (m.send r.conn op, .code (providerErr e))

/-- Read through a descriptor.  One read returns a bounded chunk. -/
def read (fd len offset : Nat) : Machine × Answer :=
  match m.fds.lookup fd with
  | none => (m, .trap)
  | some (.remote r) => m.readRemote env r offset (min len fileReadChunk)
  | some (.node id) =>
    let len := min len fileReadChunk
    match m.contents id with
    | some data => (m.touchLayer id, .data (readAt data offset len).1 (readAt data offset len).2)
    | none =>
      match m.fs.nodeKind id with
      | .null => (m, .data [] true)
      | .zero => (m, .data (List.replicate (min len deviceReadChunk) 0) false)
      | .random => (m, .data (env.random (min len deviceReadChunk)) false)
      | .dir => (m, .code .isDirectory)
      | _ => (m, .code .noEntry)

/-- What an input stream serves: everything from `offset` on, as one snapshot, or
the first chunk of an endless device or of a provider's file. -/
def readViaStream (fd offset : Nat) : Machine × Answer :=
  match m.fds.lookup fd with
  | none => (m, .trap)
  | some (.remote r) => m.readRemote env r offset fileReadChunk
  | some (.node id) =>
    match m.contents id with
    | some data => (m.touchLayer id, .data (data.drop offset) true)
    | none =>
      match m.fs.nodeKind id with
      | .null => (m, .data [] true)
      | .zero => (m, .data (List.replicate deviceReadChunk 0) false)
      | .random => (m, .data (env.random deviceReadChunk) false)
      | .dir => (m, .code .isDirectory)
      | _ => (m, .code .noEntry)

/-! ## Writing -/

/-- Write into the private file `id`, a layer file being copied up first; whether it
was there and took the bytes. -/
def writeNode (id offset : Nat) (bytes : Bytes) : Machine × Except ErrorCode Unit :=
  let m := m.copyUp id
  match m.fs.nodes.lookup id with
  | some (.file data) =>
    match writeAt data offset bytes with
    | some data => ({ m with fs := m.fs.setBytes id data }, .ok ())
    | none => (m, .error .fileTooLarge)
  | _ => (m, .error .noEntry)

def writeShared (cell offset : Nat) (bytes : Bytes) : Machine × Except ErrorCode Unit :=
  match writeAt (m.backing.cell cell) offset bytes with
  | some data => ({ m with backing := m.backing.setCell cell data }, .ok ())
  | none => (m, .error .fileTooLarge)

def writeHost (path : String) (offset : Nat) (bytes : Bytes) : Machine × Except ErrorCode Unit :=
  if env.diskOk then
    ({ m with backing := m.backing.setFile path (overwrite (m.backing.file path) offset bytes) }, .ok ())
  else (m, .error .io)

/-- Forward a write; how many bytes the provider took. -/
def writeRemote (r : RemoteDesc) (handle offset : Nat) (bytes : Bytes) :
    Machine × Except ErrorCode Nat :=
  let op := FsOp.write handle offset bytes
  match env.reply r.conn op with
  | .ok (.written count) => (m.send r.conn op, .ok count)
  | .ok _ => (m.send r.conn op, .error .io)
  | .error e => (m.send r.conn op, .error (providerErr e))

/-- Report a write of `count` bytes. -/
def report (count : Nat) : Machine × Except ErrorCode Unit → Machine × Answer
  | (m, .ok ()) => (m, .written count)
  | (m, .error e) => (m, .code e)

/-- Write through a descriptor. -/
def write (fd : Nat) (buf : Bytes) (offset : Nat) : Machine × Answer :=
  match m.fds.lookup fd with
  | none => (m, .trap)
  | some (.remote r) =>
    if r.readonly then (m, .code .notPermitted)
    else
      match r.handle with
      | none => (m, .code .isDirectory)
      | some handle =>
        if !r.live env then (m, .code .io)
        else
          match m.writeRemote env r handle offset buf with
          | (m, .ok count) => (m, .written count)
          | (m, .error e) => (m, .code e)
  | some (.node id) =>
    if id ∈ m.fs.readonly then (m, .code .notPermitted)
    else
      match m.fs.nodeKind id with
      | .file | .ro => report buf.length (m.writeNode id offset buf)
      | .shared cell => report buf.length (m.writeShared cell offset buf)
      | .host path => report buf.length (m.writeHost env path offset buf)
      | .null | .zero | .random => (m, .written buf.length)
      | .dir => (m, .code .isDirectory)
      | .missing => (m, .code .noEntry)

def setSize (fd size : Nat) : Machine × Answer :=
  match m.fds.lookup fd with
  | none => (m, .trap)
  | some (.remote r) =>
    if r.readonly then (m, .code .notPermitted)
    else
      match r.handle with
      | none => (m, .code .isDirectory)
      | some handle =>
        if !r.live env then (m, .code .io) else m.forward env r.conn (.setSize handle size)
  | some (.node id) =>
    if id ∈ m.fs.readonly then (m, .code .notPermitted)
    else if maxFileSize < size then (m, .code .fileTooLarge)
    else
      match m.fs.nodeKind id with
      | .file | .ro =>
        let m := m.copyUp id
        match m.fs.nodes.lookup id with
        | some (.file data) => ({ m with fs := m.fs.setBytes id (resize data size) }, .ok)
        | _ => (m, .ok)
      | .shared cell =>
        ({ m with backing := m.backing.setCell cell (resize (m.backing.cell cell) size) }, .ok)
      | .host path =>
        if env.diskOk then
          ({ m with backing := m.backing.setFile path (resize (m.backing.file path) size) }, .ok)
        else (m, .code .io)
      | .null | .zero | .random => (m, .ok)
      | _ => (m, .code .isDirectory)

/-! ## Output streams -/

/-- Open a stream over a provider file: at `offset`, or at its current end. -/
def streamRemote (r : RemoteDesc) (offset : Option Nat) (statFailed : FsError → ErrorCode) :
    Machine × Answer :=
  if r.readonly then (m, .code .notPermitted)
  else
    match r.handle with
    | none => (m, .code .isDirectory)
    | some handle =>
      if !r.live env then (m, .code .io)
      else
        match offset with
        | some offset => m.pushStream (.remote r handle) offset
        | none =>
          match env.reply r.conn (.getattr r.path) with
          | .ok (.attr stat) =>
            (m.send r.conn (.getattr r.path)).pushStream (.remote r handle) stat.size
          | .ok _ => (m.send r.conn (.getattr r.path), .code .io)
          | .error e => (m.send r.conn (.getattr r.path), .code (statFailed e))

/-- The length a local file is appended at, its layer copied up. -/
def appendLength (id : Nat) : Nat :=
  match m.fs.nodes.lookup id with
  | some (.file data) => data.length
  | _ => 0

/-- Open a 0.2 output stream at `offset`. -/
def writeViaStream (fd offset : Nat) : Machine × Answer :=
  match m.fds.lookup fd with
  | none => (m, .trap)
  | some (.remote r) => m.streamRemote env r (some offset) providerErr
  | some (.node id) =>
    if id ∈ m.fs.readonly then (m, .code .notPermitted)
    else
      match m.fs.nodeKind id with
      | .file | .ro => (m.touchLayer id).pushStream (.node id) offset
      | .shared cell => m.pushStream (.shared cell) offset
      | .host path => m.pushStream (.host path) offset
      | .null | .zero | .random => m.pushStream .null offset
      | _ => (m, .code .isDirectory)

/-- Open an output stream at the end of the file, in either interface.  A failed
`getattr` keeps its own code in 0.2 and is `io` in 0.3. -/
def appendFrom (fd : Nat) (statFailed : FsError → ErrorCode) : Machine × Answer :=
  match m.fds.lookup fd with
  | none => (m, .trap)
  | some (.remote r) => m.streamRemote env r none statFailed
  | some (.node id) =>
    if id ∈ m.fs.readonly then (m, .code .notPermitted)
    else
      match m.fs.nodeKind id with
      | .file | .ro => (m.copyUp id).pushStream (.node id) ((m.copyUp id).appendLength id)
      | .shared cell => m.pushStream (.shared cell) (m.backing.cell cell).length
      | .host path => m.pushStream (.host path) (m.backing.file path).length
      | .null | .zero | .random => m.pushStream .null 0
      | .dir => (m, .code .isDirectory)
      | .missing => (m, .code .noEntry)

def appendViaStream (fd : Nat) : Machine × Answer := m.appendFrom env fd providerErr

/-- Open a 0.3 output stream at `offset`. -/
def writeViaStream3 (fd offset : Nat) : Machine × Answer :=
  match m.fds.lookup fd with
  | none => (m, .trap)
  | some (.remote r) => m.streamRemote env r (some offset) fun _ => .io
  | some (.node id) =>
    if id ∈ m.fs.readonly then (m, .code .notPermitted)
    else
      match m.fs.nodeKind id with
      | .file | .ro => (m.touchLayer id).pushStream (.node id) offset
      | .shared cell => m.pushStream (.shared cell) offset
      | .host path => m.pushStream (.host path) offset
      | .null | .zero | .random => m.pushStream .null offset
      | .dir => (m, .code .isDirectory)
      | .missing => (m, .code .noEntry)

def appendViaStream3 (fd : Nat) : Machine × Answer := m.appendFrom env fd fun _ => .io

/-- Write at a stream's destination; by how much the stream moves on. -/
def writeDst (dst : WriteDst) (offset : Nat) (bytes : Bytes) : Machine × Except ErrorCode Nat :=
  let moved (result : Machine × Except ErrorCode Unit) : Machine × Except ErrorCode Nat :=
    (result.1, result.2.map fun _ => bytes.length)
  match dst with
  | .node id => moved (m.writeNode id offset bytes)
  | .shared cell => moved (m.writeShared cell offset bytes)
  | .host path => moved (m.writeHost env path offset bytes)
  | .null => (m, .ok bytes.length)
  | .remote r handle =>
    if !r.live env then (m, .error .io) else m.writeRemote env r handle offset bytes

/-- Write to a 0.2 output stream: any failure closes it, and a provider stream moves
on by what the provider took. -/
def streamWrite (handle : Nat) (bytes : Bytes) : Machine × Answer :=
  match m.streams.lookup handle with
  | none => (m, .trap)
  | some stream =>
    match m.writeDst env stream.dst stream.offset bytes with
    | (m, .ok count) =>
      ({ m with streams := m.streams.insert handle ⟨stream.dst, stream.offset + count⟩ }, .ok)
    | (m, .error _) => (m, .closed)

/-- The code a failed 0.3 write ends its stream with. -/
def consumerCode (dst : WriteDst) (e : ErrorCode) : ErrorCode :=
  match dst with
  | .remote .. => .io
  | _ => e

/-- Write to a 0.3 output stream: a failure ends it with its code, and it always moves
on by what it was given. -/
def consumerWrite (handle : Nat) (bytes : Bytes) : Machine × Answer :=
  match m.streams.lookup handle with
  | none => (m, .trap)
  | some stream =>
    match m.writeDst env stream.dst stream.offset bytes with
    | (m, .ok _) =>
      ({ m with
          streams := m.streams.insert handle ⟨stream.dst, stream.offset + bytes.length⟩ }, .ok)
    | (m, .error e) =>
      ({ m with streams := m.streams.erase handle }, .code (consumerCode stream.dst e))

end Machine

/-! ## Sessions -/

/-- What a guest can ask of its filesystem. -/
inductive Op where
  | getDirectories
  | openAt (fd : Nat) (follow : Bool) (path : String) (flags : OpenFlags)
  | close (fd : Nat)
  | createDirectoryAt (fd : Nat) (path : String)
  | linkAt (fd : Nat) (follow : Bool) (oldPath : String) (newFd : Nat) (newPath : String)
  | symlinkAt (fd : Nat) (srcPath destPath : String)
  | renameAt (fd : Nat) (oldPath : String) (newFd : Nat) (newPath : String)
  | unlinkFileAt (fd : Nat) (path : String)
  | removeDirectoryAt (fd : Nat) (path : String)
  | read (fd len offset : Nat)
  | readViaStream (fd offset : Nat)
  | write (fd : Nat) (buf : Bytes) (offset : Nat)
  | setSize (fd size : Nat)
  | writeViaStream (fd offset : Nat)
  | appendViaStream (fd : Nat)
  | streamWrite (handle : Nat) (bytes : Bytes)
  | writeViaStream3 (fd offset : Nat)
  | appendViaStream3 (fd : Nat)
  | consumerWrite (handle : Nat) (bytes : Bytes)
  deriving DecidableEq, Repr

/-- What the host can mount into an app's filesystem. -/
inductive MountSource where
  | volume (cell : Nat)
  | hostFile (path : String)
  | provider (conn : NodeId)
  deriving DecidableEq, Repr

/-- The node a mount places. -/
def MountSource.node : MountSource → FsNode
  | .volume cell => .shared cell
  | .hostFile path => .host path
  | .provider conn => .provider conn

/-- What the host does to an app's filesystem. -/
inductive HostOp where
  | ensureDirPath (path : String)
  | putFileAt (path : String) (bytes : Bytes)
  | putSymlinkAt (path target : String)
  | putRoFileAt (path : String) (layer : Nat)
  | removePath (path : String)
  | clearDirAt (path : String)
  | mount (path : String) (source : MountSource) (writable : Bool)
  | unmount (path : String)
  | ensureStandardDevices

namespace Machine

/-- Answer one operation of the guest. -/
def step (m : Machine) (env : Env) : Op → Machine × Answer
  | .getDirectories => m.getDirectories
  | .openAt fd follow path flags => m.openAt env fd follow path flags
  | .close fd => m.close env fd
  | .createDirectoryAt fd path => m.createDirectoryAt env fd path
  | .linkAt fd follow oldPath newFd newPath => m.linkAt fd follow oldPath newFd newPath
  | .symlinkAt fd srcPath destPath => m.symlinkAt fd srcPath destPath
  | .renameAt fd oldPath newFd newPath => m.renameAt env fd oldPath newFd newPath
  | .unlinkFileAt fd path => m.unlinkFileAt env fd path
  | .removeDirectoryAt fd path => m.removeDirectoryAt env fd path
  | .read fd len offset => m.read env fd len offset
  | .readViaStream fd offset => m.readViaStream env fd offset
  | .write fd buf offset => m.write env fd buf offset
  | .setSize fd size => m.setSize env fd size
  | .writeViaStream fd offset => m.writeViaStream env fd offset
  | .appendViaStream fd => m.appendViaStream env fd
  | .streamWrite handle bytes => m.streamWrite env handle bytes
  | .writeViaStream3 fd offset => m.writeViaStream3 env fd offset
  | .appendViaStream3 fd => m.appendViaStream3 env fd
  | .consumerWrite handle bytes => m.consumerWrite env handle bytes

end Machine

/-- Perform one operation of the host. -/
def Fs.host (fs : Fs) : HostOp → Fs
  | .ensureDirPath path => fs.ensureDirPath path
  | .putFileAt path bytes => fs.putFileAt path bytes
  | .putSymlinkAt path target => fs.putSymlinkAt path target
  | .putRoFileAt path layer => fs.putRoFileAt path layer
  | .removePath path => fs.removePath path
  | .clearDirAt path => fs.clearDirAt path
  | .mount path source writable => fs.putAt path source.node !writable
  | .unmount path => fs.removePath path
  | .ensureStandardDevices => fs.ensureStandardDevices

/-- One turn of a session: the guest asks, or the host acts. -/
inductive Turn where
  | guest (op : Op) (env : Env)
  | host (op : HostOp)

namespace Machine

/-- A machine over `fs`, before the guest has asked for anything. -/
def boot (fs : Fs) (backing : Backing) : Machine where
  fs := fs
  fds := ∅
  streams := ∅
  next := 0
  backing := backing
  sent := []

/-- Take one turn. -/
def turn (m : Machine) : Turn → Machine
  | .guest op env => (m.step env op).1
  | .host op => { m with fs := m.fs.host op }

/-- Take the turns of a session, in order. -/
def run (m : Machine) (turns : List Turn) : Machine := turns.foldl turn m

/-- Answer the guest's next operation. -/
def ask (m : Machine) (asked : Op × Env) : Machine := (m.step asked.2 asked.1).1

/-- Answer the operations of a guest left to itself, in order. -/
def session (m : Machine) (ops : List (Op × Env)) : Machine := ops.foldl ask m

end Machine

/-- An environment without providers, whose disk takes every write. -/
def Env.quiet : Env where
  reply := fun _ _ => .error .dead
  generation := fun _ => 0
  diskOk := true
  random := fun n => List.replicate n 0

/-- Nothing outside the filesystem. -/
def Backing.empty : Backing := ⟨∅, ∅, ∅⟩

end Wk.Vfs
