/-
# Wk.Workspace.Resolve -- a document with everything it imports

`loadResolved` reads a file and the files it imports, depth first and each once, and merges
what they define: the first to define a name or an id counts, and what an import brought is
noted, for a save to leave out.

What a path leads to, what a file says and how it parses are parameters (`Disk`).
-/
import Wk.Library.DepthFirst
import Wk.Workspace.Load

namespace Wk

open Wk.Library

set_option autoImplicit false

/-! ## Paths -/

namespace HostPath

/-- The parts of a path; only the first counts when it is empty or `.`. -/
def settle : List (List Char) → List (List Char)
  | [] => []
  | first :: rest => first :: (rest.reverse.dropWhile fun part => part = [] ∨ part = ['.']).reverse

/-- `Path::parent`. -/
def parent (path : String) : Option String :=
  match settle (path.toList.splitOn '/') with
  | [] | [[]] => none
  | [_] => some ""
  | first :: rest =>
    let base := settle (first :: rest.dropLast)
    some (if base = [[]] then "/" else String.ofList (List.intercalate ['/'] base))

/-- `Path::join`. -/
def join (base path : String) : String :=
  if path.toList.head? = some '/' then path
  else if base.toList.getLast?.all (· = '/') then base ++ path
  else base ++ "/" ++ path

/-- The file an import line of a file names. -/
def beside (path imp : String) : String := join ((parent path).getD ".") imp

end HostPath

/-! ## Files -/

/-- The host's files, the parser, and the id drawn for the workspace of a file with none. -/
structure Disk where
  canonicalize : String → Option String
  readToString : String → Except String String
  parseKdl : String → Except String KdlDocument
  round : Rounding
  drawn : String → NodeId

/-- Why there is no document. -/
inductive Halt where
  | outOfRoom
  | failed (text : String)

namespace Disk

variable (disk : Disk)

def canon (path : String) : String := (disk.canonicalize path).getD path

/-- `Document::load`: one file, without what it imports. -/
def load (path : String) : Except Halt Document :=
  match disk.readToString path with
  | .error e => .error (.failed ("no " ++ path ++ " in this directory (" ++ e ++ "); create one with `wk init`"))
  | .ok text =>
    match disk.parseKdl text with
    | .error e => .error (.failed (path ++ ": parse error: " ++ e))
    | .ok kdl =>
      match fromKdl disk.round (disk.drawn (disk.canon path)) kdl with
      | .error fault => .error (.failed (path ++ ": " ++ fault.text))
      | .ok (doc, _) => .ok doc

end Disk

/-! ## Merging -/

/-- A list of the merged document, with the keys met and those an import brought. -/
structure Shelf (κ α : Type) where
  seen : List κ := []
  items : List α := []
  imported : List κ := []

variable {κ α : Type}

def Shelf.add [DecidableEq κ] (key : α → κ) (isImport : Bool) (s : Shelf κ α) (a : α) : Shelf κ α :=
  if key a ∈ s.seen then s
  else
    { seen := s.seen ++ [key a]
      items := s.items ++ [a]
      imported := if isImport then s.imported ++ [key a] else s.imported }

structure Merging where
  imports : List String := []
  deps : Shelf String Dependency := {}
  workspaces : Shelf NodeId Workspace := {}

/-- A tab nothing was put in, as a file of dependencies gets one. -/
def Workspace.empty (ws : Workspace) : Bool :=
  ws.name.isNone && ws.tab && ws.nodes.isEmpty && ws.connections.isEmpty && ws.midi.isEmpty &&
    ws.serves.isEmpty && ws.netLinks.isEmpty

/-- The workspaces a file contributes. -/
def Document.offered (isImport : Bool) (doc : Document) : List Workspace :=
  doc.workspaces.filter fun ws => !(isImport && ws.empty)

/-- Merge what one file defines. -/
def Merging.mergeFile (isImport : Bool) (m : Merging) (doc : Document) : Merging :=
  { imports := if isImport then m.imports else doc.imports
    deps := doc.dependencies.foldl (Shelf.add Dependency.name isImport) m.deps
    workspaces := (doc.offered isImport).foldl (Shelf.add Workspace.id isImport) m.workspaces }

/-- The merged document; `scratch` is the id of the tab made for one without. -/
def Merging.document (scratch : NodeId) (m : Merging) : Document :=
  let doc : Document :=
    { imports := m.imports
      dependencies := m.deps.items
      workspaces := m.workspaces.items
      importedDeps := m.deps.imported
      importedWorkspaces := m.workspaces.imported }
  if doc.workspaces.any Workspace.tab then doc
  else { doc with scratchTab := some scratch, workspaces := doc.workspaces ++ [{ id := scratch }] }

namespace Disk

variable (disk : Disk)

/-- Merge a file and its imports, if it was not visited before. -/
def resolveInto : Nat → List String × Merging → String × Bool → Except Halt (List String × Merging)
  | 0, _, _ => .error .outOfRoom
  | room + 1, (visited, m), (path, isImport) =>
    if disk.canon path ∈ visited then .ok (visited, m)
    else do
      let doc ← disk.load path
      (doc.imports.map fun imp => (HostPath.beside path imp, true)).foldlM (resolveInto room)
        (visited ++ [disk.canon path], m.mergeFile isImport doc)

/-- `Document::load_resolved`. -/
def loadResolved (scratch : NodeId) (room : Nat) (path : String) : Except Halt Document := do
  let (_, m) ← disk.resolveInto room ([], {}) (path, false)
  return m.document scratch

/-! ## What resolving is for -/

/-- One file imports another. -/
def Imports (path other : String) : Prop :=
  ∃ doc, disk.load path = .ok doc ∧ ∃ imp ∈ doc.imports, other = HostPath.beside path imp

abbrev Reaches : String → String → Prop := Relation.ReflTransGen disk.Imports

/-- Files reached from `path`, each of them once, with every file they import. -/
structure Gathers (path : String) (files : List (String × Document)) : Prop where
  loaded : ∀ f ∈ files, disk.load f.1 = .ok f.2
  reached : ∀ f ∈ files, disk.Reaches path f.1
  once : (files.map fun f => disk.canon f.1).Nodup
  closed : ∀ f ∈ files, ∀ imp ∈ f.2.imports, ∃ g ∈ files, disk.canon g.1 = disk.canon (HostPath.beside f.1 imp)

end Disk

/-- The first item of each key. -/
def firsts [DecidableEq κ] (key : α → κ) : List α → List α
  | [] => []
  | a :: as => a :: (firsts key as).filter (key · ≠ key a)

/-- The first of each key among items marked when an import brought them. -/
def Shelf.of [DecidableEq κ] (key : α → κ) (given : List (α × Bool)) : Shelf κ α :=
  let kept := firsts (key ·.1) given
  { seen := kept.map (key ·.1), items := kept.map Prod.fst, imported := (kept.filter Prod.snd).map (key ·.1) }

/-- A file's own definitions, then those of the files it imports. -/
def compose (top : Document) (rest : List Document) : Merging where
  imports := top.imports
  deps := .of Dependency.name
    (top.dependencies.map (·, false) ++ rest.flatMap fun doc => doc.dependencies.map (·, true))
  workspaces := .of Workspace.id
    ((top.offered false).map (·, false) ++ rest.flatMap fun doc => (doc.offered true).map (·, true))

/-- What loading `path` may end in. -/
def Disk.Resolves (disk : Disk) (scratch : NodeId) (path : String) : Except Halt Document → Prop
  | .error halt => halt ≠ .outOfRoom ∧ ∃ file, disk.Reaches path file ∧ disk.load file = .error halt
  | .ok doc => ∃ top rest, disk.Gathers path ((path, top) :: rest) ∧
      doc = (compose top (rest.map Prod.snd)).document scratch

/-! ## Merging takes the first of each key -/

theorem firsts_concat [DecidableEq κ] (key : α → κ) (a : α) : ∀ xs : List α,
    firsts key (xs ++ [a]) = if key a ∈ (firsts key xs).map key then firsts key xs else firsts key xs ++ [a]
  | [] => rfl
  | x :: xs => by
    rw [List.cons_append, firsts, firsts, firsts_concat key a xs]
    grind

theorem Shelf.add_of [DecidableEq κ] (key : α → κ) (isImport : Bool) (given : List (α × Bool)) (a : α) :
    (Shelf.of key given).add key isImport a = .of key (given ++ [(a, isImport)]) := by
  unfold Shelf.of Shelf.add
  rw [firsts_concat]
  split
  · rfl
  · cases isImport <;> simp

theorem Shelf.addAll_of [DecidableEq κ] (key : α → κ) (isImport : Bool) : ∀ (xs : List α) (given : List (α × Bool)),
    xs.foldl (Shelf.add key isImport) (.of key given) = .of key (given ++ xs.map (·, isImport))
  | [], given => by simp
  | x :: xs, given => by
    rw [List.foldl_cons, Shelf.add_of, addAll_of key isImport xs]
    simp

theorem mergeFile_nil (top : Document) : Merging.mergeFile false {} top = compose top [] := by
  have blank : ({} : Merging) = { deps := .of Dependency.name [], workspaces := .of Workspace.id [] } := rfl
  rw [blank]
  simp [Merging.mergeFile, compose, Shelf.addAll_of]

theorem mergeFile_compose (top doc : Document) (files : List Document) :
    (compose top files).mergeFile true doc = compose top (files ++ [doc]) := by
  simp [Merging.mergeFile, compose, Shelf.addAll_of]

namespace Disk

open Walker

variable {disk : Disk}

/-! ## Resolving is a walk -/

def walker (disk : Disk) : Walker (String × Bool) Document String Merging Halt where
  key file := disk.canon file.1
  read file := disk.load file.1
  visit m file doc := m.mergeFile file.2 doc
  next file doc := doc.imports.map fun imp => (HostPath.beside file.1 imp, true)

theorem resolveInto_eq : ∀ room : Nat, disk.resolveInto room = disk.walker.explore .outOfRoom room
  | 0 => rfl
  | room + 1 => by
    funext st file
    unfold resolveInto Walker.explore
    rw [resolveInto_eq room]
    rfl

theorem load_halts (path : String) : disk.load path ≠ .error .outOfRoom := by
  unfold load
  split
  · nofun
  · split
    · nofun
    · split <;> nofun

theorem reaches_of_walker {file other : String × Bool} (reach : disk.walker.Reaches file other) :
    disk.Reaches file.1 other.1 := by
  induction reach with
  | refl => exact .refl
  | tail _ led ih =>
    obtain ⟨doc, read, led⟩ := led
    obtain ⟨imp, member, rfl⟩ := List.mem_map.1 led
    exact ih.tail ⟨doc, read, imp, member, rfl⟩

section

variable {path : String} {top : Document} {rest : List ((String × Bool) × Document)}
  (tour : disk.walker.Tour [(path, false)] [] (((path, false), top) :: rest))

include tour

/-- Every file but the first is an import. -/
theorem imported : ∀ x ∈ rest, x.1.2 = true := by
  intro x member
  obtain ⟨start, here, reach⟩ := tour.reached x (List.mem_cons_of_mem _ member)
  cases List.mem_singleton.1 here
  rcases reach.cases_tail with same | ⟨mid, _, doc, _, led⟩
  · refine absurd (List.mem_map.2 ⟨x, member, ?_⟩) (List.nodup_cons.1 tour.once).1
    rw [same]
  · obtain ⟨imp, _, there⟩ := List.mem_map.1 led
    rw [← there]

theorem gathers : disk.Gathers path ((path, top) :: rest.map fun x => (x.1.1, x.2)) := by
  have laid : (path, top) :: rest.map (fun x => (x.1.1, x.2)) =
      (((path, false), top) :: rest).map fun x => (x.1.1, x.2) := rfl
  rw [laid]
  refine ⟨List.forall_mem_map.2 tour.taken, List.forall_mem_map.2 fun x member => ?_, ?_,
    List.forall_mem_map.2 fun x member imp led => ?_⟩
  · obtain ⟨start, here, reach⟩ := tour.reached x member
    cases List.mem_singleton.1 here
    exact reaches_of_walker reach
  · rw [List.map_map]
    exact tour.once
  · obtain ⟨y, there, same⟩ := List.mem_map.1 (tour.closed x member _ (List.mem_map.2 ⟨imp, led, rfl⟩))
    exact ⟨_, List.mem_map_of_mem there, same⟩

end

/-- What a tour makes of nothing is what the files compose to. -/
theorem tell_compose (top : Document) : ∀ {rest : List ((String × Bool) × Document)} (files : List Document),
    (∀ x ∈ rest, x.1.2 = true) →
      disk.walker.tell (compose top files) rest = compose top (files ++ rest.map Prod.snd)
  | [], files, _ => by simp [Walker.tell]
  | (file, doc) :: rest, files, imported => by
    obtain ⟨flag, imported⟩ := List.forall_mem_cons.1 imported
    have merged : disk.walker.visit (compose top files) file doc = compose top (files ++ [doc]) := by
      change Merging.mergeFile file.2 _ doc = _
      rw [flag, mergeFile_compose]
    change disk.walker.tell (disk.walker.visit (compose top files) file doc) rest = _
    rw [merged, tell_compose top _ imported]
    simp

/-- **Resolving ends**: over finitely many files, with more room than files, in the document
its files compose to or in the error of a file it reached. -/
theorem loadResolved_resolves (disk : Disk) (scratch : NodeId) {files : Finset String} {room : Nat} {path : String}
    (inside : ∀ file doc, disk.load file = .ok doc → disk.canon file ∈ files) (enough : files.card < room) :
    disk.Resolves scratch path (disk.loadResolved scratch room path) := by
  unfold loadResolved
  rw [resolveInto_eq]
  cases walk : disk.walker.explore .outOfRoom room ([], {}) (path, false) with
  | error halt =>
    rcases explore_error (fun file doc => inside file.1 doc) walk with ⟨_, full⟩ | ⟨x, reach, failed⟩
    · exact absurd (full.trans (Finset.card_filter_le _ _)) (by omega)
    · exact ⟨fun stuck => load_halts x.1 (stuck ▸ failed), x.1, reaches_of_walker reach, failed⟩
  | ok st =>
    obtain ⟨top, rest, tour, rfl⟩ := (explore_ok walk).2 nofun
    refine ⟨top, rest.map fun x => (x.1.1, x.2), gathers tour, ?_⟩
    change Merging.document scratch (disk.walker.tell (Merging.mergeFile false {} top) rest) = _
    rw [mergeFile_nil, tell_compose top [] (imported tour), List.nil_append, List.map_map]
    rfl

/-- Two files that import each other and define one name. -/
def circle : Disk where
  canonicalize := some
  readToString path := if path = "a" ∨ path = "b" then .ok path else .error "absent"
  parseKdl path := .ok [.line "import" [.string "a"], .line "import" [.string "b"],
    { name := "dependencies"
      children := some [.line "synth" [.string (path ++ ".wasm")], .line path [.string "own.wasm"]] }]
  round := { float := fun _ => 0, integer := fun _ => 0, widen := fun _ => 0 }
  drawn _ := 0

/-- The name is what the importing file says it is. -/
theorem circle_resolves : circle.Resolves 1 "a" (circle.loadResolved 1 3 "a") ∧
    (circle.loadResolved 1 3 "a").toOption.map (fun doc =>
        (doc.dependencies.map fun dep => (dep.name, dep.source), doc.importedDeps)) =
      some ([("synth", .path "a.wasm"), ("a", .path "own.wasm"), ("b", .path "own.wasm")], ["b"]) := by
  refine ⟨?_, by decide +kernel⟩
  refine loadResolved_resolves circle 1 (fun file doc loaded => ?_) (by decide : ({"a", "b"} : Finset String).card < 3)
  by_cases named : file = "a" ∨ file = "b"
  · simpa [canon, circle] using named
  · simp [load, circle, named] at loaded

end Disk

end Wk
