/-
# Wk.Workspace.Reload -- a saved document is loaded again

What a document writes of its own, less what was imported, and what a load makes of it.  The
reader is stricter than the writer about boundaries and more forgiving about names.

* `saved_reads_back`: a workspace is read back as it was, and a document where the two agree
  about its names, sources and boundaries.
-/
import Wk.Workspace.RoundTrip

namespace Wk

open Wk.Library

set_option autoImplicit false

/-! ## Dependencies -/

/-- The reader drops colons at the end of a name, and nothing else. -/
theorem trimColons_eq_iff {s : String} : trimColons s = s ↔ s.toList.getLast? ≠ some ':' := by
  have read : trimColons s = s ↔ s.toList.reverse.dropWhile (· = ':') = s.toList.reverse := by
    rw [trimColons, ← String.toList_inj, String.toList_ofList, ← List.reverse_inj, List.reverse_reverse]
  rw [read, ← List.head?_reverse]
  cases s.toList.reverse with
  | nil => simp
  | cons c cs =>
    rw [List.head?_cons, List.dropWhile_eq_self_iff]
    simp

namespace Source

/-- Text with another scheme is not a path. -/
theorem parse_ne_path {scheme p q : String} (known : scheme ∈ ["oci://", "docker://", "image://"])
    (led : scheme.toList <+: p.toList) : parse p ≠ .path q := by
  have found : stripLead scheme p ≠ none := fun absent => stripLead_eq_none.1 absent led
  unfold parse
  split
  · simp
  · split
    · simp
    · split
      · simp
      · next oci _ docker _ image =>
          simp only [List.mem_cons, List.not_mem_nil, or_false] at known
          rcases known with rfl | rfl | rfl <;> contradiction

/-- A source is read back exactly where it does not look like another. -/
theorem parse_toKdl_iff {source : Source} : parse source.toKdl = source ↔ source.Plain := by
  refine ⟨fun back => ?_, parse_toKdl⟩
  cases source with
  | path p => exact fun scheme known led => parse_ne_path known led back
  | oci _ | dockerfile _ | image _ => trivial

end Source

namespace Dependency

/-- What is read of a dependency line. -/
def reread (dep : Dependency) : Dependency :=
  { dep with name := trimColons dep.name, source := Source.parse dep.source.toKdl }

theorem reread_eq_iff {dep : Dependency} : dep.reread = dep ↔ dep.name.toList.getLast? ≠ some ':' ∧ dep.source.Plain := by
  rw [← trimColons_eq_iff, ← Source.parse_toKdl_iff]
  cases dep
  simp [reread]

/-- What is said of a dependency under its name. -/
def sub (dep : Dependency) : KdlDocument :=
  (dep.description.map (strLine "description")).toList ++
    (if dep.args = [] then [] else [.line "args" (dep.args.map .string)])

theorem block_depKdl (dep : Dependency) : (depKdl dep).block = dep.sub := by
  change (if dep.sub = [] then none else some dep.sub).getD [] = _
  split
  · next empty => exact empty.symm
  · rfl

end Dependency

theorem parseDep_depKdl (dep : Dependency) : parseDep (depKdl dep) = some dep.reread := by
  have source : strAt (depKdl dep) 0 = some dep.source.toKdl := rfl
  have name : (depKdl dep).name = dep.name := rfl
  have args := @filterMap_args _ (KdlDocument.get dep.sub "args") "args" dep.args .string KdlValue.asString
    (by
      rw [Dependency.sub, KdlDocument.get_append, get_optional, if_neg (by decide), Option.none_or]
      split <;> rfl)
    fun _ _ => rfl
  have description : textIn dep.sub "description" = dep.description := by
    refine textIn_of_get ?_
    rw [Dependency.sub, KdlDocument.get_append, get_optional, if_pos rfl]
    split <;> exact Option.or_none
  unfold parseDep
  rw [source, name, dep.block_depKdl, args, description]
  rfl

/-! ## Boundaries -/

theorem bind_eq_ok {ε α β : Type} {x : Except ε α} {f : α → Except ε β} {b : β} :
    x >>= f = .ok b ↔ ∃ a, x = .ok a ∧ f a = .ok b := by
  cases x with
  | error e => exact ⟨fun made => (by cases made), fun ⟨_, made, _⟩ => (by cases made)⟩
  | ok a => exact ⟨fun made => ⟨a, rfl, made⟩, fun ⟨_, same, made⟩ => (by cases same; exact made)⟩

theorem forM_eq_ok {ε α : Type} {f : α → Except ε Unit} : ∀ {xs : List α}, xs.forM f = .ok () ↔ ∀ x ∈ xs, f x = .ok ()
  | [] => ⟨fun _ _ member => absurd member (List.not_mem_nil), fun _ => rfl⟩
  | x :: xs => by
    have step : (x :: xs).forM f = f x >>= fun _ => xs.forM f := rfl
    rw [step, bind_eq_ok, List.forall_mem_cons]
    constructor
    · rintro ⟨_, here, rest⟩
      exact ⟨here, forM_eq_ok.1 rest⟩
    · rintro ⟨here, rest⟩
      exact ⟨(), here, forM_eq_ok.2 rest⟩

namespace SnapKind

/-- The key a boundary port is known by. -/
def portName : SnapKind → Option (String × String)
  | inPort name _ => some ("inport", name)
  | outPort name _ => some ("outport", name)
  | _ => none

/-- A boundary carries neither a network nor a serve wire. -/
def Carriable (k : SnapKind) : Prop := ∀ dir kind, k.boundary = some (dir, kind) → kind ≠ .net ∧ kind ≠ .serve

end SnapKind

section

variable {round : Rounding} {s : NodeSnap}

/-- The lines of a block that are not a kind's own. -/
theorem snapBlock_key {n : KdlNode} (member : n ∈ snapBlock round s) :
    n ∈ s.kind.content ∨ n.name ∈ ["name", "pos", "size", "pos3d", "panel3d", "options", "args", "token"] := by
  rw [snapBlock] at member
  simp only [List.mem_append] at member
  rcases member with ((((chosen | content) | geometry) | pose) | panel) | extras
  · obtain ⟨value, _, rfl⟩ := Option.map_eq_some_iff.1 (Option.mem_toList.1 chosen)
    exact .inr (by simp)
  · exact .inl content
  · rcases List.mem_pair.1 geometry with rfl | rfl <;> exact .inr (by simp)
  · obtain ⟨value, _, rfl⟩ := Option.map_eq_some_iff.1 (Option.mem_toList.1 pose)
    exact .inr (by simp)
  · split at panel
    · cases panel
    · rw [List.mem_singleton.1 panel]
      exact .inr (by simp)
  · have key := SnapKind.extras_key extras
    exact .inr (List.mem_append_right ["name", "pos", "size", "pos3d", "panel3d"] key)

/-- The wires of a group are the only lines of its block under their keywords. -/
theorem mem_snapBlock_wire {definition : String} {name : Option String} {inWires outWires : List (String × NodeId)} {c : KdlNode}
    (kind : s.kind = .group definition name inWires outWires) (member : c ∈ snapBlock round s) (key : c.name ∈ ["in", "out"]) :
    ∃ w ∈ inWires ++ outWires, c = .line c.name [.string w.1, .string (NodeId.toText w.2)] := by
  have wires : ∀ {key : String} {ws : List (String × NodeId)}, c ∈ SnapKind.wireLines key ws →
      ∃ w ∈ ws, c = .line c.name [.string w.1, .string (NodeId.toText w.2)] := by
    intro key ws there
    obtain ⟨w, here, rfl⟩ := List.mem_map.1 there
    exact ⟨w, here, rfl⟩
  rcases snapBlock_key member with content | other
  · rw [kind] at content
    rcases List.mem_append.1 content with there | there
    · obtain ⟨w, here, same⟩ := wires there
      exact ⟨w, List.mem_append_left _ here, same⟩
    · obtain ⟨w, here, same⟩ := wires there
      exact ⟨w, List.mem_append_right _ here, same⟩
  · have apart : ∀ key ∈ ["in", "out"], key ∉ ["name", "pos", "size", "pos3d", "panel3d", "options", "args", "token"] := by decide
    exact absurd other (apart _ key)

theorem require_some {α β : Type} (a : α) (text : String) (f : α → Except Fault β) :
    (liftM (some a) : Reading α).require text >>= f = f a := rfl

/-- A written group is never refused. -/
theorem validateGroup_snapKdl {definition : String} {name : Option String} {inWires outWires : List (String × NodeId)}
    (kind : s.kind = .group definition name inWires outWires) (sound : s.Sound round) :
    validateGroup (snapKdl round s) = .ok () := by
  have fits : ∀ w ∈ inWires ++ outWires, w.2 < 2 ^ 128 := by
    have fits := sound.kind
    rwa [kind] at fits
  have lead : strAt (snapKdl round s) 0 = some definition := strAt_lead kind rfl
  have id : idAt (snapKdl round s) 1 = pure s.id := by
    have arg := idAt_snapKdl sound
    rwa [kind] at arg
  have wires : ∀ c ∈ (snapKdl round s).block, c.name ∈ ["in", "out"] →
      ∃ w : String × NodeId, strAt c 0 = some w.1 ∧ idAt c 1 = pure w.2 := by
    intro c member key
    obtain ⟨w, here, same⟩ := mem_snapBlock_wire kind member key
    rw [same]
    exact ⟨w, strAt_eq (KdlNode.line_get ..), idAt_eq (fits w here) (KdlNode.line_get ..)⟩
  unfold validateGroup
  rw [lead, id]
  refine forM_eq_ok.2 fun c member => ?_
  split
  · next key =>
      obtain ⟨w, port, node⟩ := wires c member key
      rw [port, node]
      rfl
  · rfl

theorem validatePort_snapKdl {seen : List (String × String)} {dir name : String} {port : PortKind}
    (kind : s.kind = .inPort name port ∨ s.kind = .outPort name port) (key : s.kind.portName = some (dir, name))
    {after : List (String × String)} :
    validatePort seen (snapKdl round s) = .ok after ↔
      (port ≠ .net ∧ port ≠ .serve) ∧ (dir, name) ∉ seen ∧ after = (dir, name) :: seen := by
  have lead : strAt (snapKdl round s) 0 = some name := by rcases kind with kind | kind <;> exact strAt_lead kind rfl
  have carried : strAt (snapKdl round s) 1 = some port.asStr := by rcases kind with kind | kind <;> exact strAt_lead kind rfl
  have word : (snapKdl round s).name = dir := by
    rcases kind with kind | kind <;> rw [kind] at key <;> cases key <;> rw [snapKdl_name, kind] <;> rfl
  unfold validatePort
  rw [lead, carried, word]
  simp only [require_some, PortKind.parse_asStr]
  have failed : ∀ fault : Fault, (Except.error fault : Except Fault (List (String × String))) ≠ .ok after := by simp
  have checked : ∀ fault : Fault, (if (dir, name) ∈ seen then (throw fault : Except Fault Unit) >>= fun _ => pure ((dir, name) :: seen)
      else pure ((dir, name) :: seen)) = .ok after ↔ (dir, name) ∉ seen ∧ after = (dir, name) :: seen := by
    intro fault
    split
    · next twice => exact iff_of_false (failed fault) fun both => both.1 twice
    · next fresh =>
        rw [and_iff_right fresh]
        exact ⟨fun made => (Except.ok.inj made).symm, fun same => congrArg Except.ok same.symm⟩
  cases port with
  | net => exact iff_of_false (failed _) fun both => both.1.1 rfl
  | serve => exact iff_of_false (failed _) fun both => both.1.2 rfl
  | bind | midi | capture | clipboard | api => exact (checked _).trans (and_iff_right (by simp)).symm

/-- What the check does with one line of a workspace. -/
theorem validateBlock_step : ∃ f : List (String × String) → KdlNode → Except Fault (List (String × String)),
    (∀ ws, validateBlock ws = ws.block.foldlM f [] >>= fun _ => pure ()) ∧
      (∀ seen n, n.name = "group" → f seen n = validateGroup n >>= fun _ => pure seen) ∧
      (∀ seen n, n.name ∈ ["inport", "outport"] → f seen n = validatePort seen n) ∧
      ∀ seen n, n.name ∉ ["group", "inport", "outport"] → f seen n = pure seen := by
  refine ⟨_, fun _ => rfl, fun seen n group => if_pos group, fun seen n port => ?_, fun seen n other => ?_⟩
  · have apart : n.name ≠ "group" := fun same => by simp [same] at port
    rw [if_neg apart, if_pos port]
  · have apart : n.name ≠ "group" := fun same => other (by simp [same])
    have plain : n.name ∉ ["inport", "outport"] := fun member => other (List.mem_cons_of_mem _ member)
    rw [if_neg apart, if_neg plain]

/-- A placed node passes unless it is a port that cannot be carried or whose key is taken. -/
theorem validate_snapKdl {f : List (String × String) → KdlNode → Except Fault (List (String × String))}
    (group : ∀ seen n, n.name = "group" → f seen n = validateGroup n >>= fun _ => pure seen)
    (port : ∀ seen n, n.name ∈ ["inport", "outport"] → f seen n = validatePort seen n)
    (other : ∀ seen n, n.name ∉ ["group", "inport", "outport"] → f seen n = pure seen)
    (sound : s.Sound round) {seen after : List (String × String)} :
    f seen (snapKdl round s) = .ok after ↔
      s.kind.Carriable ∧ (∀ key ∈ s.kind.portName, key ∉ seen) ∧ after = s.kind.portName.toList ++ seen := by
  have word : (snapKdl round s).name = s.kind.keyword := rfl
  have passed : s.kind.boundary = none → s.kind.portName = none → f seen (snapKdl round s) = .ok seen →
      (f seen (snapKdl round s) = .ok after ↔
        s.kind.Carriable ∧ (∀ key ∈ s.kind.portName, key ∉ seen) ∧ after = s.kind.portName.toList ++ seen) := by
    intro inner unnamed same
    rw [same, unnamed, SnapKind.Carriable, inner]
    simp [eq_comm]
  cases kind : s.kind with
  | inPort name carried =>
    rw [kind] at word
    rw [port _ _ (by rw [word]; simp [SnapKind.keyword]), validatePort_snapKdl (.inl kind) (by rw [kind]; rfl)]
    simp [SnapKind.Carriable, SnapKind.boundary, SnapKind.portName]
  | outPort name carried =>
    rw [kind] at word
    rw [port _ _ (by rw [word]; simp [SnapKind.keyword]), validatePort_snapKdl (.inr kind) (by rw [kind]; rfl)]
    simp [SnapKind.Carriable, SnapKind.boundary, SnapKind.portName]
  | group definition name inWires outWires =>
    rw [kind] at word passed
    refine passed rfl rfl ?_
    rw [group _ _ word, validateGroup_snapKdl kind sound]
    rfl
  | net gateway =>
    rw [kind] at word passed
    refine passed rfl rfl (other _ _ ?_)
    cases gateway <;> rw [word] <;> decide
  | _ =>
    rw [kind] at word passed
    refine passed rfl rfl (other _ _ ?_)
    rw [word]
    simp [SnapKind.keyword]

end

/-- What a load asks of a workspace's boundaries: each can be carried, and no two share a
key. -/
structure Workspace.Bounded (ws : Workspace) : Prop where
  carriable : ∀ s ∈ ws.nodes, s.kind.Carriable
  names : (ws.nodes.filterMap fun s => s.kind.portName).Nodup

section

variable {round : Rounding}

/-- The check of the placed nodes, one after another. -/
theorem validate_nodes {f : List (String × String) → KdlNode → Except Fault (List (String × String))}
    (step : ∀ s : NodeSnap, s.Sound round → ∀ seen after, f seen (snapKdl round s) = .ok after ↔
      s.kind.Carriable ∧ (∀ key ∈ s.kind.portName, key ∉ seen) ∧ after = s.kind.portName.toList ++ seen) :
    ∀ {nodes : List NodeSnap}, (∀ s ∈ nodes, s.Sound round) → ∀ seen,
      (∃ after, (nodes.map (snapKdl round)).foldlM f seen = .ok after) ↔
        (∀ s ∈ nodes, s.kind.Carriable) ∧ (nodes.filterMap fun s => s.kind.portName).Nodup ∧
          ∀ key ∈ nodes.filterMap fun s => s.kind.portName, key ∉ seen
  | [], _, seen => iff_of_true ⟨seen, rfl⟩ (by simp)
  | s :: nodes, sound, seen => by
    have ih := validate_nodes step (fun s member => sound s (List.mem_cons_of_mem _ member))
      (s.kind.portName.toList ++ seen)
    have split : (∃ after, ((s :: nodes).map (snapKdl round)).foldlM f seen = .ok after) ↔
        (s.kind.Carriable ∧ ∀ key ∈ s.kind.portName, key ∉ seen) ∧
          ∃ after, (nodes.map (snapKdl round)).foldlM f (s.kind.portName.toList ++ seen) = .ok after := by
      simp only [List.map_cons, List.foldlM_cons, bind_eq_ok, step s (sound s (List.mem_cons_self ..))]
      constructor
      · rintro ⟨after, _, ⟨carriable, fresh, rfl⟩, rest⟩
        exact ⟨⟨carriable, fresh⟩, after, rest⟩
      · rintro ⟨⟨carriable, fresh⟩, after, rest⟩
        exact ⟨after, _, ⟨carriable, fresh, rfl⟩, rest⟩
    rw [split, ih, List.forall_mem_cons]
    cases named : s.kind.portName with
    | none =>
      have names : (s :: nodes).filterMap (fun s => s.kind.portName) = nodes.filterMap fun s => s.kind.portName :=
        List.filterMap_cons_none named
      rw [names]
      simp [and_assoc]
    | some key =>
      have names : (s :: nodes).filterMap (fun s => s.kind.portName) = key :: nodes.filterMap fun s => s.kind.portName :=
        List.filterMap_cons_some named
      rw [names, List.nodup_cons, List.forall_mem_cons]
      -- a key is fresh for the rest when neither it nor what was seen comes again
      have apart : (∀ later ∈ nodes.filterMap fun s => s.kind.portName, later ∉ [key] ++ seen) ↔
          key ∉ (nodes.filterMap fun s => s.kind.portName) ∧
            ∀ later ∈ nodes.filterMap fun s => s.kind.portName, later ∉ seen := by
        simp only [List.singleton_append, List.mem_cons, not_or]
        exact ⟨fun fresh => ⟨fun again => (fresh key again).1 rfl, fun later member => (fresh later member).2⟩,
          fun fresh later member => ⟨fun same => fresh.1 (same ▸ member), fresh.2 later member⟩⟩
      have here : (∀ later ∈ some key, later ∉ seen) ↔ key ∉ seen := by simp
      rw [Option.toList_some, apart, here]
      tauto

/-- A written workspace passes the check just where its boundaries are in order. -/
theorem validateBlock_workspaceKdl {ws : Workspace} (sound : ws.Sound round) :
    validateBlock (workspaceKdl round ws) = .ok () ↔ ws.Bounded := by
  obtain ⟨f, eq, group, port, other⟩ := validateBlock_step
  have idle : ∀ {lines : KdlDocument} {seen}, (∀ n ∈ lines, n.name ∉ ["group", "inport", "outport"]) →
      lines.foldlM f seen = pure seen :=
    fun names => foldlM_idle fun n member => other _ n (names n member)
  have nodes := @validate_nodes round f (fun s sound seen after => validate_snapKdl group port other sound) ws.nodes sound.nodes []
  have wires : ∀ rel third, ∀ n ∈ wiresKdl ws rel third, n.name ∉ ["group", "inport", "outport"] := by
    intro rel third n member
    obtain ⟨p, _, rfl⟩ := List.mem_map.1 member
    cases rel <;> simp [pairKdl, WireRel.word]
  have block : (workspaceKdl round ws).block = workspaceBlock round ws := rfl
  have opening : ((ws.name.map (strLine "name")).toList ++ (if ws.tab then [] else [KdlNode.line "tab" [.bool false]])).foldlM f [] =
      pure [] := idle fun n member => by
    rcases List.mem_append.1 member with there | there
    · obtain ⟨name, _, rfl⟩ := Option.map_eq_some_iff.1 (Option.mem_toList.1 there)
      simp
    · split at there
      · cases there
      · rw [List.mem_singleton.1 there]
        simp
  have reach : ∀ {lines rest : KdlDocument}, (∀ n ∈ rest, n.name ∉ ["group", "inport", "outport"]) →
      ((∃ after, (lines ++ rest).foldlM f [] = .ok after) ↔ ∃ after, lines.foldlM f [] = .ok after) := by
    intro lines rest plain
    simp only [List.foldlM_append, bind_eq_ok, idle plain]
    constructor
    · rintro ⟨_, mid, made, _⟩
      exact ⟨mid, made⟩
    · rintro ⟨after, made⟩
      exact ⟨after, after, made, rfl⟩
  have checked : validateBlock (workspaceKdl round ws) = .ok () ↔ ∃ after, (workspaceBlock round ws).foldlM f [] = .ok after := by
    rw [eq, block, bind_eq_ok]
    constructor
    · rintro ⟨after, made, _⟩
      exact ⟨after, made⟩
    · rintro ⟨after, made⟩
      exact ⟨after, made, rfl⟩
  rw [checked, workspaceBlock, reach (wires _ _), reach (wires _ _), reach (wires _ _), reach (wires _ _), reach (wires _ _),
    reach (wires _ _), reach (wires _ _), List.foldlM_append, opening, pure_bind, nodes]
  constructor
  · rintro ⟨carriable, names, _⟩
    exact ⟨carriable, names⟩
  · intro bounded
    exact ⟨bounded.carriable, bounded.names, fun _ _ => List.not_mem_nil⟩

end

/-! ## Documents -/

namespace Document

/-- What a document writes: its own dependencies and workspaces, less what was imported. -/
def own (doc : Document) : Document where
  imports := doc.imports
  dependencies := doc.dependencies.filter fun d => d.name ∉ doc.importedDeps
  workspaces := doc.workspaces.filter fun w => w.id ∉ doc.importedWorkspaces

/-- Equal documents; neither has imported anything. -/
structure Same (doc doc' : Document) : Prop where
  imports : doc.imports = doc'.imports
  dependencies : doc.dependencies = doc'.dependencies
  workspaces : List.Forall₂ Workspace.Same doc.workspaces doc'.workspaces
  importedDeps : doc.importedDeps = doc'.importedDeps
  importedWorkspaces : doc.importedWorkspaces = doc'.importedWorkspaces
  scratchTab : doc.scratchTab = doc'.scratchTab

/-- What the reader asks of a document beyond what the writer does: no dependency's name ends
in a colon and no path looks like another kind of source, the boundaries of each workspace
are in order, and there is a workspace. -/
structure Readable (doc : Document) : Prop where
  names : ∀ dep ∈ doc.dependencies, dep.name.toList.getLast? ≠ some ':'
  sources : ∀ dep ∈ doc.dependencies, dep.source.Plain
  bounded : ∀ ws ∈ doc.workspaces, ws.Bounded
  some_workspace : doc.workspaces ≠ []

end Document

section

variable {round : Rounding} {doc : Document}

theorem toKdlDoc_eq (doc : Document) : doc.toKdlDoc round =
    doc.imports.map (strLine "import") ++
      (if doc.own.dependencies.map depKdl = [] then []
        else [{ KdlNode.line "dependencies" [] with children := some (doc.own.dependencies.map depKdl) }]) ++
      doc.own.workspaces.map (workspaceKdl round) := rfl

theorem named_map {α : Type} (xs : List α) (f : α → KdlNode) {key : String} (lines : ∀ x, (f x).name = key) (name : String) :
    KdlDocument.named (xs.map f) name = if key = name then xs.map f else [] := by
  have names : ∀ n ∈ xs.map f, n.name = key := by
    intro n member
    obtain ⟨x, _, rfl⟩ := List.mem_map.1 member
    exact lines x
  split
  · next same => exact KdlDocument.named_self fun n member => (names n member).trans same
  · next apart => exact KdlDocument.named_of_ne fun n member => names n member ▸ apart

theorem named_import : (doc.toKdlDoc round).named "import" = doc.imports.map (strLine "import") := by
  have imports := named_map doc.imports (strLine "import") (fun _ => rfl) "import"
  have workspaces := named_map doc.own.workspaces (workspaceKdl round) (fun _ => rfl) "import"
  rw [if_pos rfl] at imports
  rw [if_neg (by decide)] at workspaces
  rw [toKdlDoc_eq, KdlDocument.named_append, KdlDocument.named_append, imports, workspaces]
  split <;> simp

theorem named_workspace : (doc.toKdlDoc round).named "workspace" = doc.own.workspaces.map (workspaceKdl round) := by
  have imports := named_map doc.imports (strLine "import") (fun _ => rfl) "workspace"
  have workspaces := named_map doc.own.workspaces (workspaceKdl round) (fun _ => rfl) "workspace"
  rw [if_neg (by decide)] at imports
  rw [if_pos rfl] at workspaces
  rw [toKdlDoc_eq, KdlDocument.named_append, KdlDocument.named_append, imports, workspaces]
  split <;> simp

/-- The block of dependencies is read line by line, and as empty where it is left out. -/
theorem dependencies_read : ((KdlDocument.get (doc.toKdlDoc round) "dependencies").map fun n => n.block.filterMap parseDep).getD [] =
    doc.own.dependencies.map Dependency.reread := by
  have lines : (doc.own.dependencies.map depKdl).filterMap parseDep = doc.own.dependencies.map Dependency.reread := by
    rw [List.filterMap_map, ← List.filterMap_eq_map]
    exact List.filterMap_congr fun dep _ => parseDep_depKdl dep
  have others : KdlDocument.get (doc.own.workspaces.map (workspaceKdl round)) "dependencies" = none :=
    KdlDocument.get_map _ _ (fun _ => rfl) (by decide)
  have imports : KdlDocument.get (doc.imports.map (strLine "import")) "dependencies" = none :=
    KdlDocument.get_map _ _ (fun _ => rfl) (by decide)
  rw [toKdlDoc_eq, KdlDocument.get_append, KdlDocument.get_append, imports, Option.none_or, others, Option.or_none]
  by_cases empty : doc.own.dependencies.map depKdl = []
  · rw [if_pos empty, ← lines, empty]
    rfl
  · rw [if_neg empty]
    exact lines

/-- What is read of a written document. -/
theorem fromKdl_toKdlDoc {blank : NodeId} (sound : ∀ ws ∈ doc.own.workspaces, ws.Sound round) {read : Document} {said : List Report} :
    fromKdl round blank (doc.toKdlDoc round) = .ok (read, said) ↔
      (∀ ws ∈ doc.own.workspaces, ws.Bounded) ∧ said = [] ∧ read =
        { imports := doc.imports
          dependencies := doc.own.dependencies.map Dependency.reread
          workspaces := if doc.own.workspaces = [] then [{ id := blank }] else doc.own.workspaces.map Workspace.reread } := by
  have checked : validateBoundaries (doc.toKdlDoc round) = .ok () ↔ ∀ ws ∈ doc.own.workspaces, ws.Bounded := by
    rw [validateBoundaries, named_workspace, forM_eq_ok, List.forall_mem_map]
    exact forall₂_congr fun ws member => validateBlock_workspaceKdl (sound ws member)
  have reads : (doc.own.workspaces.map (workspaceKdl round)).map (parseWorkspace round) =
      doc.own.workspaces.map fun ws => pure ws.reread := by
    rw [List.map_map]
    exact List.map_congr_left fun ws member => parseWorkspace_workspaceKdl (sound ws member)
  have made : (doc.own.workspaces.map fun ws => (pure ws.reread : Reading Workspace)).filterMap Reading.made =
      doc.own.workspaces.map Workspace.reread := by
    rw [List.filterMap_map, ← List.filterMap_eq_map]
    rfl
  have silent : (doc.own.workspaces.map fun ws => (pure ws.reread : Reading Workspace)).flatMap Reading.said = [] := by
    rw [List.flatMap_map]
    exact List.flatMap_eq_nil_iff.2 fun _ _ => rfl
  have imports : (doc.imports.map (strLine "import")).filterMap (fun n => strAt n 0) = doc.imports := by
    rw [List.filterMap_map]
    exact List.filterMap_some
  have blanked : (doc.own.workspaces.map Workspace.reread = []) ↔ doc.own.workspaces = [] := List.map_eq_nil_iff
  unfold fromKdl
  rw [bind_eq_ok]
  simp only [named_workspace, reads, made, silent, named_import, imports, dependencies_read, blanked]
  rw [← checked]
  constructor
  · rintro ⟨_, passed, same⟩
    cases same
    exact ⟨passed, rfl, rfl⟩
  · rintro ⟨passed, rfl, rfl⟩
    exact ⟨(), passed, rfl⟩

/-- A written document is read back exactly where it is `Readable`. -/
theorem reloads_iff (blank : NodeId) (sound : ∀ ws ∈ doc.own.workspaces, ws.Sound round) :
    (∃ read, fromKdl round blank (doc.toKdlDoc round) = .ok (read, []) ∧ read.Same doc.own) ↔ doc.own.Readable := by
  have same : List.Forall₂ Workspace.Same (doc.own.workspaces.map Workspace.reread) doc.own.workspaces := by
    rw [List.forall₂_map_left_iff, List.forall₂_same]
    exact fun ws member => (sound ws member).reread_same
  have deps : doc.own.dependencies.map Dependency.reread = doc.own.dependencies ↔
      ∀ dep ∈ doc.own.dependencies, dep.name.toList.getLast? ≠ some ':' ∧ dep.source.Plain := by
    have each : doc.own.dependencies.map Dependency.reread = doc.own.dependencies.map id ↔
        ∀ dep ∈ doc.own.dependencies, dep.reread = dep := List.map_inj_left
    rw [List.map_id] at each
    exact each.trans (forall₂_congr fun dep _ => dep.reread_eq_iff)
  constructor
  · rintro ⟨read, loaded, kept⟩
    obtain ⟨bounded, _, rfl⟩ := (fromKdl_toKdlDoc sound).1 loaded
    have plain := deps.1 kept.dependencies
    refine ⟨fun dep member => (plain dep member).1, fun dep member => (plain dep member).2, bounded, fun none_own => ?_⟩
    have workspaces := kept.workspaces
    rw [if_pos none_own, none_own] at workspaces
    cases workspaces
  · intro readable
    refine ⟨_, (fromKdl_toKdlDoc sound).2 ⟨readable.bounded, rfl, rfl⟩, ?_⟩
    refine ⟨rfl, deps.2 fun dep member => ⟨readable.names dep member, readable.sources dep member⟩, ?_, rfl, rfl, rfl⟩
    rw [if_neg readable.some_workspace]
    exact same

end

/-- A workspace is read back as it was, and a document's own part exactly where it is
`Readable`. -/
theorem saved_reads_back (round : Rounding) :
    (∀ ws : Workspace, ws.Sound round →
      ∃ read, parseWorkspace round (workspaceKdl round ws) = pure read ∧ read.Same ws) ∧
    ∀ (blank : NodeId) (doc : Document), (∀ ws ∈ doc.own.workspaces, ws.Sound round) →
      ((∃ read, fromKdl round blank (doc.toKdlDoc round) = .ok (read, []) ∧ read.Same doc.own) ↔ doc.own.Readable) :=
  ⟨fun ws sound => ⟨ws.reread, parseWorkspace_workspaceKdl sound, sound.reread_same⟩, fun blank _ sound => reloads_iff blank sound⟩

/-- One placed note, at the size of a widget. -/
def noteSpace : Workspace := { id := 7, nodes := [{ id := 8, pos := (0, 0), size := fileSize, kind := .note "hello" }] }

/-- Exact on the floats of a fresh node: zero, 130 and 44. -/
def fresh : Rounding where
  widen v := if v = 0x43020000 then 0x4060400000000000 else if v = 0x42300000 then 0x4046000000000000 else 0
  float v := if v = 0x4060400000000000 then 0x43020000 else if v = 0x4046000000000000 then 0x42300000 else 0
  integer _ := 0

theorem noteSpace_sound : noteSpace.Sound fresh where
  id := by decide
  nodes := by
    intro s member
    rw [List.mem_singleton.1 member]
    refine ⟨by decide, ?_, trivial⟩
    intro v member
    have only : v ∈ [(0 : F32), 0, 0x43020000, 0x42300000] := member
    simp only [List.mem_cons, List.not_mem_nil, or_false] at only
    rcases only with rfl | rfl | rfl | rfl <;> rfl
  links := fun _ p member => by cases member
  mountPaths := fun p path found => by cases found
  midiChannels := fun p ch found => by cases found
  servePorts := fun p port found => by cases found

theorem noteSpace_bounded : noteSpace.Bounded where
  carriable := by
    intro s member dir kind port
    rw [List.mem_singleton.1 member] at port
    cases port
  names := by decide

theorem saved_reads_back_note :
    (∃ read, parseWorkspace fresh (workspaceKdl fresh noteSpace) = pure read ∧ read.Same noteSpace) ∧
      ∃ read, fromKdl fresh 0 (Document.toKdlDoc fresh { workspaces := [noteSpace] }) = .ok (read, []) ∧
        read.Same (Document.own { workspaces := [noteSpace] }) := by
  have sound : ∀ ws ∈ [noteSpace], ws.Sound fresh := List.forall_mem_singleton.2 noteSpace_sound
  have bounded : ∀ ws ∈ [noteSpace], ws.Bounded := List.forall_mem_singleton.2 noteSpace_bounded
  have some_workspace : [noteSpace] ≠ [] := by simp
  exact ⟨(saved_reads_back fresh).1 noteSpace noteSpace_sound,
    ((saved_reads_back fresh).2 0 { workspaces := [noteSpace] } sound).2
      ⟨fun dep member => absurd member List.not_mem_nil, fun dep member => absurd member List.not_mem_nil, bounded, some_workspace⟩⟩

/-- A dependency whose name ends in a colon comes back under another name. -/
theorem colon_lost :
    ¬ ∀ (round : Rounding) (blank : NodeId) (doc : Document), (∀ ws ∈ doc.own.workspaces, ws.Sound round) →
      ∃ read, fromKdl round blank (doc.toKdlDoc round) = .ok (read, []) ∧ read.Same doc.own := by
  intro every
  let doc : Document := { dependencies := [{ name := "synth:", source := .path "synth:.wasm" }], workspaces := [noteSpace] }
  have sound : ∀ ws ∈ doc.own.workspaces, ws.Sound fresh := fun ws member => by
    rw [List.mem_singleton.1 member]
    exact noteSpace_sound
  have dep : ({ name := "synth:", source := .path "synth:.wasm" } : Dependency) ∈ doc.own.dependencies := .head _
  exact ((reloads_iff 0 sound).1 (every fresh 0 doc sound)).names _ dep (by simp)

end Wk
