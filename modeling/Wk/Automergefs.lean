/-
# Wk.Automergefs -- the tree a synced filesystem serves

A synced filesystem answers the operations of its mount from memory: full paths with their
bytes, and the directories that were made (any other directory is there by what is under
it).  What an operation changes is written down for the next flush, in a set of dirty paths
and, apart from it, a log of renames.

A hash map or set is iterated in any order, given with the operation.  The fields under
"ghosts" are not in the source and nothing reads them.
-/
import Wk.Provider
import Wk.Library.Rekey

namespace Wk.Automergefs

open Wk.Library Wk.Provider

set_option autoImplicit false

/-! ## Paths and bytes -/

def MAX_FILE : Nat := 64 * 1024 * 1024

/-- `as usize` on the plugin's 32-bit target. -/
def asUsize (n : Nat) : Nat := n % 2 ^ 32

/-- `strip_prefix`. -/
def stripPrefix (start s : String) : Option String := (start.toList.isPrefixOf? s.toList).map String.ofList

theorem stripPrefix_eq_some {start s rest : String} : stripPrefix start s = some rest ↔ s = start ++ rest := by
  unfold stripPrefix
  simp only [Option.map_eq_some_iff, List.isPrefixOf?_eq_some_iff_append_eq]
  constructor
  · rintro ⟨chars, whole, rfl⟩
    rw [← String.toList_inj, String.toList_append, String.toList_ofList, whole]
  · rintro rfl
    exact ⟨rest.toList, String.toList_append.symm, String.ofList_toList⟩

/-- Whether a path is below a directory. -/
def isUnder (dir path : String) : Bool := (stripPrefix dir path).any fun rest => rest.toList.head? == some '/'

/-- `split('/').next()`. -/
def firstName (path : String) : String := String.ofList (path.toList.takeWhile (· ≠ '/'))

/-- `Vec::resize` with zeros. -/
def resize (b : Bytes) (size : Nat) : Bytes := b.take size ++ List.replicate (size - b.length) 0

/-- The orders in which an operation goes through the files and the directories. -/
structure Orders where
  files : List String := []
  dirs : List String := []
  deriving DecidableEq, Repr

/-! ## The tree -/

structure MemTree where
  files : Table String Bytes := ∅
  dirs : List String := []
  handles : Table Nat String := ∅
  nextHandle : Nat := 1
  /-- Paths written or removed since the last flush. -/
  dirty : List String := []
  /-- Renames since the last flush, in order. -/
  renames : List (String × String) := []
  -- ghosts
  /-- Where a file was at the start, if renames brought it from there. -/
  whence : String → Option String := fun _ => none
  /-- The files a refused write left behind, not written since. -/
  stray : List String := []
  /-- The paths that operations have changed. -/
  touched : List String := []

namespace MemTree

/-- Every path the tree has a file or a directory of its own for. -/
def names (t : MemTree) : List String := t.files.keys ++ t.dirs

def isDir (t : MemTree) (path : String) : Bool := path = "" || path ∈ t.dirs || t.names.any (isUnder path)

/-- A file's bytes are replaced, and the path is dirty. -/
def store (t : MemTree) (path : String) (b : Bytes) : MemTree :=
  { t with
    files := t.files.insert path b
    dirty := t.dirty.insert path
    stray := t.stray.filter (· ≠ path)
    touched := t.touched ++ [path] }

/-- `files.entry(path).or_default()`. -/
def entry (t : MemTree) (path : String) : MemTree :=
  if path ∈ t.files then t
  else
    { t with
      files := t.files.insert path []
      stray := if path ∈ t.dirty then t.stray else t.stray ++ [path] }

def remove (t : MemTree) (path : String) : MemTree :=
  { t with
    files := t.files.erase path
    dirty := t.dirty.insert path
    whence := Function.update t.whence path none
    stray := t.stray.filter (· ≠ path)
    touched := t.touched ++ [path] }

/-- `move_file`. -/
def moveFile (t : MemTree) (move : String × String) : MemTree :=
  let (src, dest) := move
  { t with
    files := t.files.rekey (src, dest)
    dirty := if src ∈ t.dirty then (t.dirty.filter (· ≠ src)).insert dest else t.dirty
    handles := Table.mapValues (fun path => if path = src then dest else path) t.handles
    renames := t.renames ++ [(src, dest)]
    whence := Function.update (Function.update t.whence src none) dest (t.whence src)
    stray := t.stray.filter (fun path => path ≠ src ∧ path ≠ dest) ++
      if src ∈ t.stray ∧ dest ∉ t.dirty then [dest] else []
    touched := t.touched ++ [src, dest] }

/-! ## Answering operations -/

def getattr (t : MemTree) (path : String) : FsResult :=
  if t.isDir path then .ok (.attr { kind := .dir, size := 0 })
  else
    match t.files.lookup path with
    | some b => .ok (.attr { kind := .file, size := b.length })
    | none => .error .noEntry

def readdir (t : MemTree) (path : String) : FsResult :=
  if t.isDir path then
    let start := if path = "" then "" else path ++ "/"
    let firsts := t.names.filterMap fun p => ((stripPrefix start p).filter (· ≠ "")).map firstName
    .ok (.entries (firsts.eraseDups.map fun first =>
      { name := first, kind := if start ++ first ∈ t.files then .file else .dir }))
  else .error .notDir

def open' (t : MemTree) (path : String) (create truncate exclusive : Bool) : FsResult × MemTree :=
  let present := path ∈ t.files || t.isDir path
  if present && exclusive then (.error .exist, t)
  else if !present && !create then (.error .noEntry, t)
  else
    let t := if !present || truncate && path ∈ t.files then t.store path [] else t
    let (kind, size) :=
      match t.files.lookup path with
      | some b => (FsEntryKind.file, b.length)
      | none => (.dir, 0)
    (.ok (.opened { handle := t.nextHandle, kind, size }),
      { t with nextHandle := t.nextHandle + 1, handles := t.handles.insert t.nextHandle path })

def read (t : MemTree) (handle offset len : Nat) : FsResult :=
  match (t.handles.lookup handle).bind t.files.lookup with
  | none => .error .noEntry
  | some b =>
    let start := min (asUsize offset) b.length
    let stop := min (start + len) b.length
    .ok (.data ((b.drop start).take (stop - start)) (decide (b.length ≤ stop)))

def write (t : MemTree) (handle offset : Nat) (data : Bytes) : FsResult × MemTree :=
  match t.handles.lookup handle with
  | none => (.error .noEntry, t)
  | some path =>
    let start := asUsize offset
    let stop := start + data.length
    -- the entry is made before the size is looked at
    if MAX_FILE < stop then (.error .tooLarge, t.entry path)
    else
      let b := (t.files.lookup path).getD []
      let b := if b.length < stop then resize b stop else b
      (.ok (.written data.length), t.store path (b.take start ++ data ++ b.drop stop))

def setSize (t : MemTree) (handle size : Nat) : FsResult × MemTree :=
  match t.handles.lookup handle with
  | none => (.error .noEntry, t)
  | some path =>
    if MAX_FILE < asUsize size then (.error .tooLarge, t)
    else (.ok .done, t.store path (resize ((t.files.lookup path).getD []) (asUsize size)))

def mkdir (t : MemTree) (path : String) : FsResult × MemTree :=
  if path ∈ t.files || t.isDir path then (.error .exist, t) else (.ok .done, { t with dirs := t.dirs.insert path })

def unlink (t : MemTree) (path : String) : FsResult × MemTree :=
  if path ∈ t.files then (.ok .done, t.remove path)
  else (.error (if t.isDir path then .isDir else .noEntry), t)

def rmdir (t : MemTree) (path : String) : FsResult × MemTree :=
  if path ∈ t.files then (.error .notDir, t)
  else if !t.isDir path then (.error .noEntry, t)
  else if t.names.any (isUnder path) then (.error .notPermitted, t)
  else (.ok .done, { t with dirs := t.dirs.filter (· ≠ path) })

/-- What a directory's rename moves, file by file. -/
def moves (t : MemTree) (orders : Orders) (src dest : String) : List (String × String) :=
  (arrange orders.files t.files.keys).filterMap fun old =>
    (stripPrefix (src ++ "/") old).map fun rest => (old, dest ++ "/" ++ rest)

/-- A directory's rename, for the directories that were made. -/
def moveDir (src dest : String) (dirs : List String) (old : String) : List String :=
  (dirs.filter (· ≠ old)).insert
    (if old = src then dest else dest ++ "/" ++ (stripPrefix (src ++ "/") old).getD "")

def rename (t : MemTree) (orders : Orders) (src dest : String) : FsResult × MemTree :=
  if src ∈ t.files then (.ok .done, t.moveFile (src, dest))
  else if t.isDir src then
    let t := (t.moves orders src dest).foldl moveFile t
    let dirs := t.dirs.filter fun d => d = src || (stripPrefix (src ++ "/") d).isSome
    (.ok .done, { t with dirs := (arrange orders.dirs dirs).foldl (moveDir src dest) t.dirs })
  else (.error .noEntry, t)

def handle (t : MemTree) (orders : Orders) : FsOp → FsResult × MemTree
  | .getattr path => (t.getattr path, t)
  | .readdir path => (t.readdir path, t)
  | .open path create truncate exclusive => t.open' path create truncate exclusive
  | .read handle offset len => (t.read handle offset len, t)
  | .write handle offset data => t.write handle offset data
  | .release handle => (.ok .done, { t with handles := t.handles.erase handle })
  | .setSize handle size => t.setSize handle size
  | .mkdir path => t.mkdir path
  | .unlink path => t.unlink path
  | .rmdir path => t.rmdir path
  | .rename src dest => t.rename orders src dest

/-! ## What an operation can do -/

/-- The paths an operation is about. -/
def named (t : MemTree) : FsOp → List String
  | .getattr path | .readdir path | .open path _ _ _ | .mkdir path | .unlink path | .rmdir path => [path]
  | .read handle _ _ | .write handle _ _ | .release handle | .setSize handle _ => (t.handles.lookup handle).toList
  | .rename src dest => [src, dest]

/-- A write through a handle on a path is refused for its size. -/
def Refuses (t : MemTree) (op : FsOp) (path : String) : Prop :=
  ∃ handle offset data, op = .write handle offset data ∧ t.handles.lookup handle = some path ∧
    MAX_FILE < asUsize offset + data.length

/-- Two trees that differ in directories and handles only. -/
structure SameFiles (t t' : MemTree) : Prop where
  files : t'.files = t.files
  dirty : t'.dirty = t.dirty
  renames : t'.renames = t.renames
  whence : t'.whence = t.whence
  stray : t'.stray = t.stray
  touched : t'.touched = t.touched

theorem mem_moveFile {t : MemTree} {move : String × String} {path : String} (other : path ≠ move.1)
    (here : path ∈ t.files) : path ∈ (t.moveFile move).files := by
  change path ∈ t.files.rekey move
  obtain ⟨b, found⟩ := Table.mem_iff_lookup.1 here
  cases source : t.files.lookup move.1 with
  | none =>
    rw [Table.rekey_of_none source]
    exact here
  | some c =>
    refine Table.mem_iff_lookup.2 ?_
    rw [Table.lookup_rekey source, if_neg other]
    split
    · exact ⟨c, rfl⟩
    · exact ⟨b, found⟩

section Keeps

variable {P : MemTree → Prop} {Ok : String → Prop}

/-- Moves from different files of the tree keep what each of them keeps. -/
theorem moveFiles_keeps
    (move : ∀ t m, m.1 ∈ t.files → Ok m.2 → P t → P (t.moveFile m)) :
    ∀ (moves : List (String × String)) (t : MemTree), (∀ m ∈ moves, m.1 ∈ t.files ∧ Ok m.2) →
      (moves.map Prod.fst).Nodup → P t → P (moves.foldl moveFile t)
  | [], _, _, _, start => start
  | m :: moves, t, sound, apart, start => by
    obtain ⟨first, rest⟩ := List.nodup_cons.1 apart
    obtain ⟨here, okay⟩ := sound m List.mem_cons_self
    refine moveFiles_keeps move moves _ (fun m' member => ?_) rest (move t m here okay start)
    obtain ⟨here', okay'⟩ := sound m' (List.mem_cons_of_mem _ member)
    exact ⟨mem_moveFile (fun same => first (same ▸ List.mem_map_of_mem member)) here', okay'⟩

theorem moves_sound (t : MemTree) (orders : Orders) (src dest : String) :
    (∀ m ∈ t.moves orders src dest, m.1 ∈ t.files ∧ ∃ rest, m.2 = dest ++ "/" ++ rest) ∧
      ((t.moves orders src dest).map Prod.fst).Nodup := by
  constructor
  · intro m member
    obtain ⟨old, listed, found⟩ := List.mem_filterMap.1 member
    obtain ⟨rest, -, rfl⟩ := Option.map_eq_some_iff.1 found
    exact ⟨AList.mem_keys.2 (mem_arrange.1 listed), rest, rfl⟩
  · have sources : (t.moves orders src dest).map Prod.fst =
        (arrange orders.files t.files.keys).filter fun old => (stripPrefix (src ++ "/") old).isSome := by
      rw [moves, List.map_filterMap]
      induction arrange orders.files t.files.keys with
      | nil => rfl
      | cons old olds ih =>
        rw [List.filterMap_cons, List.filter_cons, ih]
        cases stripPrefix (src ++ "/") old <;> rfl
    rw [sources]
    exact ((arrange_perm _ _).nodup_iff.2 t.files.keys_nodup).filter _

/-- What the five changes to the files keep, every operation keeps. -/
theorem handle_keeps (below : ∀ dest rest, Ok dest → Ok (dest ++ "/" ++ rest))
    (same : ∀ t t', SameFiles t t' → P t → P t')
    (store : ∀ t path b, Ok path → P t → P (t.store path b))
    (remove : ∀ t path, path ∈ t.files → Ok path → P t → P (t.remove path))
    (move : ∀ t m, m.1 ∈ t.files → Ok m.2 → P t → P (t.moveFile m))
    {t : MemTree} (orders : Orders) (op : FsOp)
    (entry : ∀ path, t.Refuses op path → Ok path → P t → P (t.entry path)) (okay : ∀ path ∈ t.named op, Ok path) (start : P t) :
    P (t.handle orders op).2 := by
  cases op with
  | getattr path => exact start
  | readdir path => exact start
  | «open» path create truncate exclusive =>
    have stored := store t path [] (okay path List.mem_cons_self) start
    simp only [handle, open']
    split
    · exact start
    · split
      · exact start
      · split
        · exact same (t.store path []) _ ⟨rfl, rfl, rfl, rfl, rfl, rfl⟩ stored
        · exact same t _ ⟨rfl, rfl, rfl, rfl, rfl, rfl⟩ start
  | read handle offset len => exact start
  | write handle offset data =>
    simp only [MemTree.handle, write]
    split
    · exact start
    · next path held =>
        have here := okay path (Option.mem_toList.2 held)
        split
        · next large => exact entry path ⟨handle, offset, data, rfl, held, large⟩ here start
        · exact store t path _ here start
  | release handle => exact same t _ ⟨rfl, rfl, rfl, rfl, rfl, rfl⟩ start
  | setSize handle size =>
    simp only [MemTree.handle, setSize]
    split
    · exact start
    · next path held =>
        split
        · exact start
        · exact store t path _ (okay path (Option.mem_toList.2 held)) start
  | mkdir path =>
    simp only [MemTree.handle, mkdir]
    split
    · exact start
    · exact same t _ ⟨rfl, rfl, rfl, rfl, rfl, rfl⟩ start
  | unlink path =>
    simp only [MemTree.handle, unlink]
    split
    · next here => exact remove t path here (okay path List.mem_cons_self) start
    · exact start
  | rmdir path =>
    simp only [MemTree.handle, rmdir]
    split
    · exact start
    · split
      · exact start
      · split
        · exact start
        · exact same t _ ⟨rfl, rfl, rfl, rfl, rfl, rfl⟩ start
  | rename src dest =>
    have there := okay dest (List.mem_cons_of_mem _ List.mem_cons_self)
    simp only [MemTree.handle, rename]
    split
    · next here => exact move t (src, dest) here there start
    · split
      · obtain ⟨sound, apart⟩ := t.moves_sound orders src dest
        refine same ((t.moves orders src dest).foldl moveFile t) _ ⟨rfl, rfl, rfl, rfl, rfl, rfl⟩
          (moveFiles_keeps move _ t (fun m member => ?_) apart start)
        obtain ⟨here, rest, below_dest⟩ := sound m member
        exact ⟨here, below_dest ▸ below dest rest there⟩
      · exact start

end Keeps

/-- A refused write makes the entry, and nothing else. -/
theorem handle_of_refuses {t : MemTree} {op : FsOp} {path : String} (refuses : t.Refuses op path) (orders : Orders) :
    (t.handle orders op).2 = t.entry path := by
  obtain ⟨handle, offset, data, rfl, held, large⟩ := refuses
  simp only [MemTree.handle, write, held, if_pos large]

/-- A path is dirty, or named by the log. -/
def Pending (t : MemTree) (path : String) : Prop :=
  path ∈ t.dirty ∨ ∃ move ∈ t.renames, path = move.1 ∨ path = move.2

/-- What operations have done since a tree: what they touched is pending, what was pending
still is, and the rest is as it was. -/
structure Since (t₀ t : MemTree) : Prop where
  touched : ∀ path ∈ t.touched, t.Pending path
  pending : ∀ path, t₀.Pending path → t.Pending path
  files : ∀ path ∉ t.touched, t.files.lookup path = t₀.files.lookup path

theorem pending_insert {t t' : MemTree} {path : String} (dirty : t'.dirty = t.dirty.insert path)
    (renames : t'.renames = t.renames) {p : String} : t'.Pending p ↔ p = path ∨ t.Pending p := by
  unfold Pending
  rw [dirty, renames, List.mem_insert_iff, or_assoc]

/-- One path is changed, touched and made dirty. -/
theorem Since.change {t₀ t t' : MemTree} {path : String} (since : Since t₀ t) (dirty : t'.dirty = t.dirty.insert path)
    (renames : t'.renames = t.renames) (touched : t'.touched = t.touched ++ [path])
    (files : ∀ p, p ≠ path → t'.files.lookup p = t.files.lookup p) : Since t₀ t' where
  touched p here := by
    rw [touched] at here
    rw [pending_insert dirty renames]
    rcases List.mem_append.1 here with old | new
    · exact .inr (since.touched p old)
    · exact .inl (List.mem_singleton.1 new)
  pending p waits := (pending_insert dirty renames).2 (.inr (since.pending p waits))
  files p untouched := by
    rw [touched, List.mem_append, not_or] at untouched
    rw [files p fun same => untouched.2 (List.mem_singleton.2 same)]
    exact since.files p untouched.1

theorem Since.move {t₀ t : MemTree} {move : String × String} (since : Since t₀ t) : Since t₀ (t.moveFile move) := by
  obtain ⟨src, dest⟩ := move
  have pending : ∀ p, t.Pending p ∨ p = src ∨ p = dest → (t.moveFile (src, dest)).Pending p := by
    have named : ∀ p, p = src ∨ p = dest → (t.moveFile (src, dest)).Pending p := fun p here =>
      .inr ⟨(src, dest), List.mem_append_right _ List.mem_cons_self, here⟩
    rintro p ((dirty | ⟨move, logged, here⟩) | here)
    · by_cases source : p = src
      · exact named p (.inl source)
      · refine .inl ?_
        simp only [moveFile]
        split
        · exact List.mem_insert_of_mem (List.mem_filter.2 ⟨dirty, by simpa using source⟩)
        · exact dirty
    · exact .inr ⟨move, List.mem_append_left _ logged, here⟩
    · exact named p here
  refine ⟨fun p here => ?_, fun p waits => pending p (.inl (since.pending p waits)), fun p untouched => ?_⟩
  · rcases List.mem_append.1 here with old | new
    · exact pending p (.inl (since.touched p old))
    · exact pending p (.inr (by simpa using new))
  · have apart : p ∉ t.touched ∧ p ≠ src ∧ p ≠ dest := by simpa [moveFile] using untouched
    rw [← since.files p apart.1]
    exact Table.lookup_rekey_of_ne apart.2.1 apart.2.2

/-- An operation that leaves no stray entry. -/
theorem handle_since {t : MemTree} (fresh : t.touched = []) (orders : Orders) (op : FsOp)
    (spares : ∀ path, t.Refuses op path → path ∈ t.files) : Since t (t.handle orders op).2 := by
  have start : Since t t := by
    refine ⟨fun path here => ?_, fun _ waits => waits, fun _ _ => rfl⟩
    rw [fresh] at here
    cases here
  have anywhere : ∀ path ∈ t.named op, (fun _ : String => True) path := fun _ _ => trivial
  refine handle_keeps (P := Since t) (fun _ _ _ => trivial) (fun u u' same since => ?_)
    (fun u path b _ since => ?_) (fun u path _ _ since => ?_) (fun u m _ _ since => since.move) orders op
    (fun path refuses _ since => ?_) anywhere start
  · obtain ⟨files, dirty, renames, -, -, touched⟩ := same
    refine ⟨?_, ?_, ?_⟩
    · rw [touched]
      unfold Pending
      rw [dirty, renames]
      exact since.touched
    · unfold Pending
      rw [dirty, renames]
      exact since.pending
    · rw [touched, files]
      exact since.files
  · exact since.change rfl rfl rfl fun p other => AList.lookup_insert_ne other
  · exact since.change rfl rfl rfl fun p other => AList.lookup_erase_ne other
  · unfold entry
    rw [if_pos (spares path refuses)]
    exact since

end MemTree
end Wk.Automergefs
