/-
# Wk.Workspace.Comments -- comments across a save

A save rebuilds the file from the document and grafts the comments of the old file onto it:
a fresh line takes the comment of the line of the old file with the same identity, level by
level.  A file is held as the KDL reader keeps it, every node with the text above it.

* `comments_kept_iff`: the document read is the same, and the comments all survive exactly
  where each is the one that stands last at its counterparts' addresses.
-/
import Wk.Workspace.Write
import Wk.Workspace.Load
import Wk.Library.Overlay

namespace Wk

open Wk.Library

set_option autoImplicit false

/-! ## Identities -/

/-- What pairs a fresh node with the same node in the existing file. -/
inductive NodeIdent where
  | importOf (path : String)
  | dependencies
  | workspace (id : NodeId)
  | workspaceName
  | workspaceTab
  | placed (id : NodeId)
  | wire (word : String) (a b : NodeId)
  | groupWire (word port : String) (node : NodeId)
  deriving DecidableEq, Repr

namespace NodeIdent

/-- Whether it means one thing in the whole file, and not only within its block. -/
def Stable : NodeIdent → Prop
  | workspaceName | workspaceTab | groupWire .. => False
  | _ => True

end NodeIdent

/-- The identity of a node, if it has one. -/
def nodeIdent (n : KdlNode) : Option NodeIdent :=
  match n.name with
  | "import" => (strAt n 0).map .importOf
  | "dependencies" => some .dependencies
  | "workspace" => (idAt n 0).made.map .workspace
  | "name" => some .workspaceName
  | "tab" => some .workspaceTab
  | "connection" | "midi" | "serve" | "netlink" | "capturelink" | "clipboardlink" | "apilink" => do
    return .wire n.name (← (idAt n 0).made) (← (idAt n 1).made)
  -- only ever seen inside a `group` block
  | "in" | "out" => do return .groupWire n.name (← strAt n 0) (← (idAt n 1).made)
  -- a placed node: its id is its identity, wherever on the line it sits
  | _ => (idAt n (idArgIndex n.name)).made.map .placed

/-! ## Files -/

/-- A line without its block. -/
structure Head where
  name : String
  entries : List KdlEntry
  deriving DecidableEq, Repr

namespace Head

def node (h : Head) (children : Option (List KdlNode)) : KdlNode := { name := h.name, entries := h.entries, children }

/-- Identity is a matter of the line alone. -/
def ident (h : Head) : Option NodeIdent := nodeIdent (h.node none)

end Head

/-- A node with its leading comment. -/
abbrev Line := Noted String Head

structure File where
  header : String := ""
  nodes : List Line

namespace File

/-- What the readers see of a file. -/
def content (f : File) : KdlDocument := Noted.buildAll Head.node f.nodes

end File

mutual

/-- A node as it is built: nothing above it. -/
def plain : KdlNode → Line
  | { name, entries, children } => .node "" { name, entries } (plainBlock children)

def plainBlock : Option (List KdlNode) → Option (List Line)
  | none => none
  | some ns => some (plainAll ns)

def plainAll : List KdlNode → List Line
  | [] => []
  | n :: ns => plain n :: plainAll ns

end

/-! ## Saving -/

def Commented (leading : String) : Prop := trim leading ≠ ""

instance : DecidablePred Commented := fun leading => inferInstanceAs (Decidable (trim leading ≠ ""))

/-- Copy leading comments onto the fresh nodes of one level, and on into their blocks. -/
def graftLevel (fresh old : List Line) : List Line := Noted.overlayAll Head.ident Commented old fresh

/-- Graft the header and each node's leading comment. -/
def graftComments (fresh old : File) : File :=
  { header := if Commented old.header then old.header else fresh.header
    nodes := graftLevel fresh.nodes old.nodes }

/-- What a save writes over the old file, if there was one that could be parsed. -/
def Document.save (round : Rounding) (old : Option File) (doc : Document) : File :=
  let fresh : File := { nodes := plainAll (doc.toKdlDoc round) }
  match old with
  | some old => graftComments fresh old
  | none => fresh

/-! ## Counterparts -/

/-- An address in a file: identities, and keywords where a line has none. -/
abbrev Address := List (NodeIdent ⊕ String)

/-- A line at an address. -/
abbrev At : List Line → Address → Line → Prop := Noted.Reach Head.ident Head.name

/-- Two addresses of one thing: the same address, or one identity that holds throughout. -/
def Counterpart (p q : Address) : Prop :=
  p = q ∨ ∃ i : NodeIdent, i.Stable ∧ p.getLast? = some (.inl i) ∧ q.getLast? = some (.inl i)

/-- Every comment of the old file is found on its counterparts in the new one. -/
def Kept (old new : List Line) : Prop :=
  ∀ p q o m, At old p o → At new q m → Counterpart p q → Commented o.note → m.note = o.note

/-- Where a commented line has a counterpart, each line on the way to the counterpart has an
identity, and following these through the old file, by the last line of each, leads to that
comment. -/
def Heard (old fresh : List Line) : Prop :=
  ∀ p q o f, At old p o → At fresh q f → Counterpart p q → Commented o.note →
    ∃ l, Noted.spoken Head.ident old q = some l ∧ l.note = o.note

mutual

theorem build_plain : ∀ n : KdlNode, (plain n).build Head.node = n
  | { name, entries, children } => congrArg (Head.node { name, entries }) (buildBlock_plain children)

theorem buildBlock_plain : ∀ block : Option (List KdlNode), Noted.buildBlock Head.node (plainBlock block) = block
  | none => rfl
  | some ns => congrArg some (buildAll_plain ns)

theorem buildAll_plain : ∀ ns : List KdlNode, Noted.buildAll Head.node (plainAll ns) = ns
  | [] => rfl
  | n :: ns => congrArg₂ List.cons (build_plain n) (buildAll_plain ns)

end

theorem plainAll_eq : ∀ ns : List KdlNode, plainAll ns = ns.map plain
  | [] => rfl
  | n :: ns => congrArg (plain n :: ·) (plainAll_eq ns)

/-- Nothing that is built has a comment. -/
theorem plain_silent {ns : List KdlNode} {path : Address} {f : Line} (there : At (plainAll ns) path f) :
    ¬ Commented f.note := by
  generalize built : plainAll ns = fs at there
  induction there generalizing ns with
  | here member =>
    rw [← built, plainAll_eq, List.mem_map] at member
    obtain ⟨⟨name, entries, children⟩, _, rfl⟩ := member
    exact of_decide_eq_false rfl
  | inside member block _ ih =>
    rw [← built, plainAll_eq, List.mem_map] at member
    obtain ⟨⟨name, entries, children⟩, _, rfl⟩ := member
    cases children with
    | none => cases block
    | some ns =>
      cases block
      exact ih rfl

theorem kept_iff_heard {old : List Line} (doc : KdlDocument) :
    Kept old (graftLevel (plainAll doc) old) ↔ Heard old (plainAll doc) :=
  Noted.kept_iff Counterpart fun _ _ => plain_silent

/-- A save writes what the document says, whatever the comments. -/
theorem content_save (round : Rounding) (old : Option File) (doc : Document) :
    (doc.save round old).content = doc.toKdlDoc round := by
  cases old with
  | none => exact buildAll_plain _
  | some old => exact (Noted.buildAll_overlay Head.ident Commented Head.node old.nodes _).trans (buildAll_plain _)

/-- Saving over a file keeps its comments exactly where each is heard, and never changes
what the file says. -/
theorem comments_kept_iff (round : Rounding) (blank : NodeId) (old : File) (doc : Document) :
    (Kept old.nodes (doc.save round (some old)).nodes ∧
      fromKdl round blank (doc.save round (some old)).content = fromKdl round blank (doc.toKdlDoc round)) ↔
    Heard old.nodes (plainAll (doc.toKdlDoc round)) := by
  rw [content_save]
  exact (and_iff_left rfl).trans (kept_iff_heard _)

/-- The line of a dependency. -/
def synthLine : Head := { name := "synth", entries := [{ value := .string "synth.wasm" }] }

/-- A file with one dependency, and a comment above it. -/
def commentedDep (leading : String) : List Line :=
  [.node "" { name := "dependencies", entries := [] } (some [.node leading synthLine none])]

theorem at_commentedDep (leading : String) :
    At (commentedDep leading) [.inl .dependencies, .inr "synth"] (.node leading synthLine none) := by
  have outer : Noted.key Head.ident Head.name { name := "dependencies", entries := [] } = .inl .dependencies := rfl
  have inner : Noted.key Head.ident Head.name synthLine = .inr "synth" := by decide +kernel
  rw [← outer, ← inner]
  exact .inside (.head _) rfl (.here (.head _))

/-- The line of a dependency has no identity, and loses its comment. -/
theorem dependency_comment_lost :
    ¬ ∀ (round : Rounding) (blank : NodeId) (old : File) (doc : Document),
      Kept old.nodes (doc.save round (some old)).nodes ∧
        fromKdl round blank (doc.save round (some old)).content = fromKdl round blank (doc.toKdlDoc round) := by
  intro every
  let doc : Document := { dependencies := [{ name := "synth", source := .path "synth.wasm" }], workspaces := [] }
  have round : Rounding := { float := fun _ => 0, integer := fun _ => 0, widen := fun _ => 0 }
  have built : plainAll (doc.toKdlDoc round) = commentedDep "" := rfl
  have heard := (kept_iff_heard _).1 (every round 0 { nodes := commentedDep "// the lead" } doc).1
  rw [built] at heard
  obtain ⟨l, there, _⟩ := heard _ _ _ _ (at_commentedDep _) (at_commentedDep _) (.inl rfl) (by decide +kernel)
  obtain ⟨_, _, none_of⟩ := Option.bind_eq_some_iff.1 there
  cases none_of

end Wk
