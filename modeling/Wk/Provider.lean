/-
# Wk.Provider -- what crosses a provider mount

A node may serve a filesystem to others.  An operation of a consumer that crosses
the mount becomes an `FsOp`, and the serving program answers with an `FsReplyData`
or an `FsError`.  Paths are relative to the provider's root, whose path is empty.
-/
import Wk.Protocol

namespace Wk.Provider

set_option autoImplicit false

/-- What a provider entry is. -/
inductive FsEntryKind where
  | file | dir
  deriving DecidableEq, Repr

/-- A provider's answer to `getattr`. -/
structure FsStat where
  kind : FsEntryKind
  size : Nat
  deriving DecidableEq, Repr

/-- One entry of a provider directory listing. -/
structure FsDirent where
  name : String
  kind : FsEntryKind
  deriving DecidableEq, Repr

/-- A provider's answer to `open`: its handle and what the entry is. -/
structure FsOpened where
  handle : Nat
  kind : FsEntryKind
  size : Nat
  deriving DecidableEq, Repr

/-- One filesystem operation forwarded to a provider. -/
inductive FsOp where
  | getattr (path : String)
  | readdir (path : String)
  | open (path : String) (create truncate exclusive : Bool)
  | read (handle offset len : Nat)
  | write (handle offset : Nat) (data : Bytes)
  | release (handle : Nat)
  | setSize (handle size : Nat)
  | mkdir (path : String)
  | unlink (path : String)
  | rmdir (path : String)
  | rename (source target : String)
  deriving DecidableEq, Repr

/-- A provider's successful reply. -/
inductive FsReplyData where
  | done
  | attr (stat : FsStat)
  | entries (list : List FsDirent)
  | opened (o : FsOpened)
  | data (bytes : Bytes) (eof : Bool)
  | written (count : Nat)
  deriving DecidableEq, Repr

/-- Provider-reported errors and the conduit's own failures. -/
inductive FsError where
  | noEntry | notDir | isDir | exist | notPermitted | io | tooLarge | unsupported
  /-- No serve loop is attached. -/
  | dead
  /-- A live provider did not answer in time. -/
  | timeout
  deriving DecidableEq, Repr

abbrev FsResult := Except FsError FsReplyData

/-- Whether an operation asks the provider to change what it serves. -/
def FsOp.mutates : FsOp → Bool
  | .open _ create truncate _ => create || truncate
  | .write .. | .setSize .. | .mkdir _ | .unlink _ | .rmdir _ | .rename .. => true
  | .getattr _ | .readdir _ | .read .. | .release _ => false

/-- The handle an operation carries. -/
def FsOp.handle? : FsOp → Option Nat
  | .read handle _ _ | .write handle _ _ | .release handle | .setSize handle _ => some handle
  | _ => none

end Wk.Provider
