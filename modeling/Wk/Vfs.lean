/-
# Wk.Vfs -- an app's in-memory filesystem

A filesystem is a table of nodes with directories naming their children.  This
module has the state, the two path walks (across symbolic links, with POSIX `..`)
and the host-side operations: creating the directories of a path, dropping a
subtree, mounting a node at a path, placing and removing what is at a path, and
the reference counts of open descriptors.  What a guest may ask is in
`Wk.Vfs.Guest`.
-/
import Wk.Workspace

namespace Wk.Vfs

open Wk.Library

set_option autoImplicit false

/-- One node of a filesystem. -/
inductive FsNode where
  | file (bytes : Bytes)
  | dir (children : Table String Nat)
  /-- A file whose bytes live in a canvas Volume's shared cell. -/
  | shared (cell : Nat)
  /-- A file backed by a file of the host. -/
  | host (path : String)
  /-- An immutable file of an image layer, by the index of its shared bytes. -/
  | roFile (layer : Nat)
  | symlink (target : String)
  | null | zero | random
  /-- The root of a subtree another node's program serves. -/
  | provider (app : NodeId)

/-- The root directory's id. -/
def root : Nat := 0

/-- One app node's in-memory filesystem. -/
structure Fs where
  nodes : Table Nat FsNode
  next : Nat
  /-- Node ids mounted read-only. -/
  readonly : List Nat
  /-- Number of open descriptors per node id. -/
  openFds : Table Nat Nat

/-- A fresh, empty filesystem. -/
def Fs.new : Fs where
  nodes := (∅ : Table Nat FsNode).insert root (.dir ∅)
  next := 1
  readonly := []
  openFds := ∅

/-- Largest number of nodes one filesystem may hold. -/
def maxFsNodes : Nat := 100000

/-- How many symlinks one path walk may cross. -/
def maxSymlinkHops : Nat := 32

/-! ## Paths -/

/-- Split at every slash, keeping empty parts. -/
def splitSlash : List Char → List (List Char)
  | [] => [[]]
  | '/' :: rest => [] :: splitSlash rest
  | c :: rest =>
    match splitSlash rest with
    | [] => [[c]]
    | part :: parts => (c :: part) :: parts

/-- The normal components of a path, ignoring empty ones and `.`. -/
def components (path : String) : List String :=
  ((splitSlash path.toList).filter fun c => c ≠ [] && c ≠ ['.']).map String.ofList

namespace Fs

/-- Whether the filesystem is at its node cap. -/
def atCapacity (fs : Fs) : Bool := maxFsNodes ≤ fs.nodes.entries.length

/-- Add a node under a fresh id. -/
def alloc (fs : Fs) (node : FsNode) : Nat × Fs :=
  (fs.next, { fs with nodes := fs.nodes.insert fs.next node, next := fs.next + 1 })

/-- Name `child` in the directory `parent`, if that is one. -/
def addChild (fs : Fs) (parent : Nat) (name : String) (child : Nat) : Fs :=
  match fs.nodes.lookup parent with
  | some (.dir children) => { fs with nodes := fs.nodes.insert parent (.dir (children.insert name child)) }
  | _ => fs

/-- Resolve the directory at the end of `dirs`, creating what is missing; `none`
if a component is no directory or the filesystem is full.  What was created on the
way stays. -/
def ensureDirs (fs : Fs) (cur : Nat) : List String → Fs × Option Nat
  | [] => (fs, some cur)
  | comp :: rest =>
    match fs.nodes.lookup cur with
    | some (.dir children) =>
      match children.lookup comp with
      | some id =>
        match fs.nodes.lookup id with
        | some (.dir _) => fs.ensureDirs id rest
        | _ => (fs, none)
      | none =>
        if fs.atCapacity then (fs, none)
        else
          let (id, fs) := fs.alloc (.dir ∅)
          (fs.addChild cur comp id).ensureDirs id rest
    | _ => (fs, none)

/-- Where a walk along components stops. -/
inductive WalkEnd where
  | done (id : Nat)
  | missing
  /-- A symbolic link, with what is left to walk after its target. -/
  | link (target : String) (rest : List String) (cur : Nat) (ancestors : List Nat)
  /-- A provider mount, with what is left for the provider to walk. -/
  | remote (mount : Nat) (conn : NodeId) (rest : List String)

/-- Walk components until the end, a gap, a symbolic link or, if `crossing`, a
provider mount.  The final component is followed only if `followFinal`. -/
def walk (fs : Fs) (crossing followFinal : Bool) : List String → Nat → List Nat → WalkEnd
  | [], cur, _ => .done cur
  | comp :: rest, cur, ancestors =>
    -- `..` follows the path actually walked; above its start is the root
    if comp = ".." then fs.walk crossing followFinal rest (ancestors.headD root) ancestors.tail
    else
      match fs.nodes.lookup cur with
      | some (.dir children) =>
        match children.lookup comp with
        | none => .missing
        | some next =>
          match fs.nodes.lookup next with
          | none => .missing
          | some (.symlink target) =>
            if rest.isEmpty && !followFinal then
              fs.walk crossing followFinal rest next (cur :: ancestors)
            else .link target rest cur ancestors
          | some (.provider conn) =>
            if crossing then .remote next conn rest
            else fs.walk crossing followFinal rest next (cur :: ancestors)
          | some _ => fs.walk crossing followFinal rest next (cur :: ancestors)
      | _ => .missing

/-- Whether a path starts at the root. -/
def absolute (path : String) : Bool := path.toList.head? = some '/'

/-- Follow a walk across at most `hops` symbolic links. -/
def follow (fs : Fs) (crossing followFinal : Bool) : Nat → WalkEnd → WalkEnd
  | 0, .link .. => .missing
  | hops + 1, .link target rest cur ancestors =>
    if absolute target then
      fs.follow crossing followFinal hops
        (fs.walk crossing followFinal (components target ++ rest) root [])
    else
      fs.follow crossing followFinal hops
        (fs.walk crossing followFinal (components target ++ rest) cur ancestors)
  | _, stop => stop

/-- Where a walk of `comps` from `start` ends once its links are followed. -/
def ending (fs : Fs) (crossing followFinal : Bool) (start : Nat) (comps : List String) : WalkEnd :=
  fs.follow crossing followFinal maxSymlinkHops (fs.walk crossing followFinal comps start [])

/-- Where a path is taken from: a leading slash is the root. -/
def origin (start : Nat) (path : String) : Nat := if absolute path then root else start

/-- Resolve `path` from `start`, following links; the final one if `followFinal`. -/
def resolveAt (fs : Fs) (start : Nat) (path : String) (followFinal : Bool) : Option Nat :=
  match fs.ending false followFinal (origin start path) (components path) with
  | .done id => some id
  | _ => none

/-- Resolve components from `start`, following symlinks all the way. -/
def resolveFrom (fs : Fs) (start : Nat) (comps : List String) : Option Nat :=
  match fs.ending false true start comps with
  | .done id => some id
  | _ => none

/-- Resolve components from the root. -/
def resolve (fs : Fs) (comps : List String) : Option Nat := fs.resolveFrom root comps

/-- Resolve the parent directory of the last component of `path`.  The other
components are walked from `start`, a leading slash notwithstanding: joining them
again loses it. -/
def resolveParent (fs : Fs) (start : Nat) (path : String) : Option (Nat × String) :=
  match (components path).reverse with
  | [] => none
  | name :: dirs =>
    match fs.resolveFrom start dirs.reverse with
    | none => none
    | some parent =>
      match fs.nodes.lookup parent with
      | some (.dir _) => some (parent, name)
      | _ => none

/-- Where a path walk from a local directory ends up. -/
inductive Resolved where
  | node (id : Nat)
  /-- The walk crossed a provider mount: the rest is the provider's to answer. -/
  | remote (conn : NodeId) (path : String) (readonly : Bool)
  | missing

/-- Resolve `path` like `resolveAt`, but stop at a provider mount and hand over the
rest of the path. -/
def resolvePlace (fs : Fs) (start : Nat) (path : String) (followFinal : Bool) : Resolved :=
  match fs.nodes.lookup (origin start path) with
  | some (.provider conn) =>
    .remote conn ("/".intercalate (components path)) (origin start path ∈ fs.readonly)
  | _ =>
    match fs.ending true followFinal (origin start path) (components path) with
    | .done id => .node id
    | .remote mount conn rest =>
      .remote conn ("/".intercalate rest) (mount ∈ fs.readonly)
    | _ => .missing

/-- Drop `id` and, if it is a directory, everything under it.  Each level removes
a node, so as much fuel as there are nodes is enough. -/
def dropSubtree : Nat → Fs → Nat → Fs
  | 0, fs, _ => fs
  | fuel + 1, fs, id =>
    let gone := { fs with nodes := fs.nodes.erase id }
    match fs.nodes.lookup id with
    | some (.dir children) =>
      (Table.values children).foldl (fun fs child => dropSubtree fuel fs child) gone
    | _ => gone

/-- Detach child `name` of `parent` and drop its whole subtree. -/
def removePathIn (fs : Fs) (parent : Nat) (name : String) : Fs :=
  match fs.nodes.lookup parent with
  | some (.dir children) =>
    match children.lookup name with
    | some id =>
      let detached := { fs with nodes := fs.nodes.insert parent (.dir (children.erase name)) }
      dropSubtree detached.nodes.entries.length detached id
    | none => fs
  | _ => fs

/-- Remove the entry at `path`; a missing path is left alone. -/
def removePath (fs : Fs) (path : String) : Fs :=
  match (components path).reverse with
  | [] => fs
  | name :: dirs =>
    match fs.resolve dirs.reverse with
    | some parent => fs.removePathIn parent name
    | none => fs

/-- Place `node` at `path`, creating parent directories and replacing any existing
entry. -/
def putAt (fs : Fs) (path : String) (node : FsNode) (readonly : Bool) : Fs :=
  match (components path).reverse with
  | [] => fs
  | name :: dirs =>
    match fs.ensureDirs root dirs.reverse with
    | (fs, none) => fs
    | (fs, some parent) =>
      if fs.atCapacity then fs
      else
        let (id, fs) := (fs.removePathIn parent name).alloc node
        let fs := if readonly then { fs with readonly := id :: fs.readonly } else fs
        fs.addChild parent name id

/-- Place a private file at `path`. -/
def putFileAt (fs : Fs) (path : String) (bytes : Bytes) : Fs := fs.putAt path (.file bytes) false

/-- Place a shared read-only layer file at `path`. -/
def putRoFileAt (fs : Fs) (path : String) (layer : Nat) : Fs := fs.putAt path (.roFile layer) false

/-- Place a symlink at `path` pointing at `target`. -/
def putSymlinkAt (fs : Fs) (path target : String) : Fs := fs.putAt path (.symlink target) false

/-- Resolve the directory at `path`, creating missing components. -/
def ensureDirPath (fs : Fs) (path : String) : Fs := (fs.ensureDirs root (components path)).1

/-- Remove every child of the directory at `path` (an OCI opaque marker). -/
def clearDirAt (fs : Fs) (path : String) : Fs :=
  match fs.resolveFrom root (components path) with
  | none => fs
  | some id =>
    match fs.nodes.lookup id with
    | some (.dir children) =>
      let cleared := { fs with nodes := fs.nodes.insert id (.dir ∅) }
      (Table.values children).foldl
        (fun fs child => dropSubtree fs.nodes.entries.length fs child) cleared
    | _ => fs

/-- Add a device file to the directory `dev`, unless its name is taken. -/
def ensureDevice (dev : Nat) (fs : Fs) (device : String × FsNode) : Fs :=
  match fs.nodes.lookup dev with
  | some (.dir children) =>
    if (children.lookup device.1).isSome || fs.atCapacity then fs
    else
      let (id, fs) := fs.alloc device.2
      fs.addChild dev device.1 id
  -- `dev` is the directory just ensured; of another node the new one would be no child
  | _ => if fs.atCapacity then fs else (fs.alloc device.2).2

/-- The device files a container expects under `/dev`, those not there yet. -/
def ensureStandardDevices (fs : Fs) : Fs :=
  match fs.ensureDirs root ["dev"] with
  | (fs, none) => fs
  | (fs, some dev) =>
    [("null", .null), ("zero", .zero), ("urandom", .random), ("random", .random)].foldl
      (ensureDevice dev) fs

/-- Mount a host path: a file mounts live, a directory is mirrored entry by entry
(`entries` is what walking it yields, relative paths and whether each is a
directory). -/
def mountHost (fs : Fs) (path hostPath : String) (entries : Option (List (String × Bool)))
    (writable : Bool) : Fs :=
  match entries with
  | none => fs.putAt path (.host hostPath) !writable
  | some entries =>
    entries.foldl (fun fs entry =>
      if entry.2 then (fs.ensureDirs root (components (path ++ "/" ++ entry.1))).1
      else fs.putAt (path ++ "/" ++ entry.1) (.host (hostPath ++ "/" ++ entry.1)) !writable)
      (fs.ensureDirs root (components path)).1

/-! ## Open descriptors -/

/-- Whether any directory entry maps to `id`. -/
def nodeIsReferenced (fs : Fs) (id : Nat) : Bool :=
  (Table.values fs.nodes).any fun node =>
    match node with
    | .dir children => (Table.values children).any fun child => child = id
    | _ => false

/-- The number of open descriptors onto `id`. -/
def openCount (fs : Fs) (id : Nat) : Nat := (fs.openFds.lookup id).getD 0

/-- Register an opened descriptor against `id`. -/
def openRef (fs : Fs) (id : Nat) : Fs :=
  { fs with openFds := fs.openFds.insert id (fs.openCount id + 1) }

/-- Drop an opened descriptor.  When the last one closes and no directory entry
names the node any more, it goes with everything under it. -/
def closeRef (fs : Fs) (id : Nat) : Fs :=
  match fs.openFds.lookup id with
  | none => fs
  | some count =>
    if count - 1 = 0 then
      let closed := { fs with openFds := fs.openFds.erase id }
      if id ≠ root && !closed.nodeIsReferenced id then
        dropSubtree closed.nodes.entries.length closed id
      else closed
    else { fs with openFds := fs.openFds.insert id (count - 1) }

end Fs

end Wk.Vfs
