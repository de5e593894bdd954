/-
# Wk.Instancing.Naming -- when no two instances are called the same

An instance is called by its groups' names joined with dashes, and a named app inside it
by that and its own name.  A group takes the name its line writes, whatever its neighbours
are called, and a name may hold dashes itself.

* `Spells`: what a group spells after its own name.
* `names_nodup_iff`: all that is spelled under the tabs differs exactly where, canvas by
  canvas, no two groups spell one name.
* `names_unique_iff`: the same of an expansion's instances and apps.

Poles: `voices_named` (names that differ), `leads_named` (two groups of one name).
-/
import Wk.Instancing.Scopes

namespace Wk.Instancing

open Wk.Library

set_option autoImplicit false

/-! ## What is spelled -/

/-- The name a node was given by its definition. -/
def chosenName (n : NodeSnap) : Option String :=
  match n.kind with
  | .app _ own .. => own
  | _ => none

/-- What a definition adds to an instance's name for the instance itself. -/
def ownLabel (_ : Workspace) : List String := [""]

/-- What a definition adds to an instance's name for the apps it names. -/
def appLabels (ws : Workspace) : List String := (ws.nodes.filterMap chosenName).map ("-" ++ ·)

section Spelling

variable (labels : Workspace → List String) (dg : Digests) (defs : Table String Workspace)

/-- What a group spells after its own name. -/
inductive Spells : NodeSnap → String → Prop where
  | own {line : NodeSnap} {defn : Workspace} {l : String}
      (defined : defs.lookup (groupDefinition line.kind) = some defn) (label : l ∈ labels defn) : Spells line l
  | inner {line : NodeSnap} {defn : Workspace} {g : NodeSnap × String} {t : String}
      (defined : defs.lookup (groupDefinition line.kind) = some defn) (nested : g ∈ namedGroups dg defn)
      (spells : Spells g.1 t) : Spells line ("-" ++ g.2 ++ t)

/-- Two groups of a canvas spell no name in common. -/
def SpellApart (g h : NodeSnap × String) : Prop :=
  ∀ t u, Spells labels dg defs g.1 t → Spells labels dg defs h.1 u → g.2 ++ t ≠ h.2 ++ u

/-- No name is spelled twice on a definition's canvas. -/
structure ClearIn (defn : Workspace) : Prop where
  own : (labels defn).Nodup
  groups : (namedGroups dg defn).Pairwise (SpellApart labels dg defs)
  mixed : ∀ l ∈ labels defn, ∀ g ∈ namedGroups dg defn, ∀ t, Spells labels dg defs g.1 t → l ≠ "-" ++ g.2 ++ t

/-- No name is spelled twice on a canvas, that of all tabs together or that of a
definition. -/
structure Clear (doc : Document) : Prop where
  onTabs : ((tabs doc).flatMap (namedGroups dg)).Pairwise (SpellApart labels dg (definitionTable doc))
  inside : ∀ s ∈ scopes dg doc, ClearIn labels dg (definitionTable doc) s.level.defn

/-- What a scope spells. -/
def spelled (s : Scope) : List String := (labels s.level.defn).map (s.name ++ ·)

/-- A group that expands in the room there is. -/
def Closed : Nat → NodeSnap → Prop
  | 0, _ => False
  | room + 1, line => ∃ defn, defs.lookup (groupDefinition line.kind) = some defn ∧
      ∀ g ∈ namedGroups dg defn, Closed room g.1

variable {labels dg defs}

theorem append_injective (a : String) : Function.Injective (a ++ ·) := fun _ _ => (String.append_right_inj a).1

variable {tab : Workspace}

/-- What the scopes below a group spell, after its name. -/
theorem mem_spelled {room : Nat} : ∀ {up : List Level} {line : NodeSnap} {name x : String}, Closed dg defs room line →
    (x ∈ (below dg defs tab room up line name).flatMap (spelled labels) ↔
      ∃ t, Spells labels dg defs line t ∧ x = name ++ t) := by
  induction room with
  | zero => exact fun closed => closed.elim
  | succ room ih =>
    intro up line name x closed
    obtain ⟨defn, found, inside⟩ := closed
    rw [below, found]
    dsimp only
    rw [List.flatMap_cons, List.mem_append, List.flatMap_assoc, List.mem_flatMap]
    constructor
    · rintro (own | ⟨g, member, inner⟩)
      · obtain ⟨l, label, rfl⟩ := List.mem_map.1 own
        exact ⟨l, .own found label, rfl⟩
      · obtain ⟨t, spells, rfl⟩ := (ih (inside g member)).1 inner
        exact ⟨_, .inner found member spells, by simp only [String.append_assoc]⟩
    · rintro ⟨t, spells, rfl⟩
      cases spells with
      | own found' label =>
        cases found.symm.trans found'
        exact .inl (List.mem_map.2 ⟨_, label, rfl⟩)
      | @inner _ _ g t found' member spells =>
        cases found.symm.trans found'
        exact .inr ⟨g, member, (ih (inside g member)).2 ⟨t, spells, by simp only [String.append_assoc]⟩⟩

/-- Groups that spell nothing in common after a common lead. -/
theorem pairwise_apart_iff {α : Type} {gs : List α} (key : α → NodeSnap × String) {f : α → List String} {lead : String}
    (mem : ∀ g ∈ gs, ∀ x, x ∈ f g ↔ ∃ t, Spells labels dg defs (key g).1 t ∧ x = lead ++ ((key g).2 ++ t)) :
    gs.Pairwise (Function.onFun List.Disjoint f) ↔ gs.Pairwise fun g h => SpellApart labels dg defs (key g) (key h) := by
  refine List.Pairwise.iff_of_mem fun {g h} here there => ⟨fun disjoint t u spells spells' same => ?_, ?_⟩
  · exact disjoint ((mem g here _).2 ⟨t, spells, rfl⟩) ((mem h there _).2 ⟨u, spells', by rw [same]⟩)
  · intro apart x inside outside
    obtain ⟨t, spells, rfl⟩ := (mem g here x).1 inside
    obtain ⟨u, spells', same⟩ := (mem h there _).1 outside
    exact apart t u spells spells' (append_injective lead same)

/-- **Below a group** no name is spelled twice exactly where it is so on every canvas.
Induction on the room left. -/
theorem below_spelled {room : Nat} : ∀ {up : List Level} {line : NodeSnap} {name : String}, Closed dg defs room line →
    (((below dg defs tab room up line name).flatMap (spelled labels)).Nodup ↔
      ∀ s ∈ below dg defs tab room up line name, ClearIn labels dg defs s.level.defn) := by
  induction room with
  | zero => exact fun closed => closed.elim
  | succ room ih =>
    intro up line name closed
    obtain ⟨defn, found, inside⟩ := closed
    rw [below, found]
    dsimp only
    have mem : ∀ g ∈ namedGroups dg defn, ∀ x,
        x ∈ (below dg defs tab room (⟨instanceId dg line up, line, defn⟩ :: up) g.1 (name ++ "-" ++ g.2)).flatMap
          (spelled labels) ↔ ∃ t, Spells labels dg defs g.1 t ∧ x = (name ++ "-") ++ (g.2 ++ t) := fun g member x => by
      rw [mem_spelled (inside g member)]
      simp only [String.append_assoc]
    rw [List.flatMap_cons, List.flatMap_assoc, List.nodup_append, List.nodup_flatMap, List.forall_mem_cons,
      pairwise_apart_iff (fun g => g) mem]
    have own : (spelled labels ⟨tab, ⟨instanceId dg line up, line, defn⟩, up, name⟩).Nodup ↔ (labels defn).Nodup :=
      List.nodup_map_iff (append_injective name)
    rw [own]
    constructor
    · rintro ⟨once, ⟨each, apart⟩, mixed⟩
      refine ⟨⟨once, apart, fun l label g member t spells same => ?_⟩, ?_⟩
      · refine mixed (name ++ l) (List.mem_map.2 ⟨l, label, rfl⟩) (name ++ "-" ++ (g.2 ++ t))
          (List.mem_flatMap.2 ⟨g, member, (mem g member _).2 ⟨t, spells, rfl⟩⟩) ?_
        rw [same]
        simp only [String.append_assoc]
      · intro s deeper
        obtain ⟨g, member, inner⟩ := List.mem_flatMap.1 deeper
        exact (ih (inside g member)).1 (each g member) s inner
    · rintro ⟨clear, deeper⟩
      refine ⟨clear.own, ⟨fun g member => (ih (inside g member)).2 fun s inner =>
        deeper s (List.mem_flatMap.2 ⟨g, member, inner⟩), clear.groups⟩, fun x here y there same => ?_⟩
      obtain ⟨l, label, rfl⟩ := List.mem_map.1 here
      obtain ⟨g, member, inner⟩ := List.mem_flatMap.1 there
      obtain ⟨t, spells, rfl⟩ := (mem g member y).1 inner
      refine clear.mixed l label g member t spells (append_injective name ?_)
      simpa only [String.append_assoc] using same

end Spelling

/-! ## What expands -/

section Documents

variable {labels : Workspace → List String} {dg : Digests} {doc : Document} {defs : Table String Workspace}
  {out : List Instance}

/-- A group that is expanded is closed.  Induction on the room left. -/
theorem group_closed {room : Nat} : ∀ {path : List String} {out out' : List Instance} {at_ : Site} {inst : NodeId}
    {parent : Option NodeId} {node : NodeSnap} {name : String} {outer : NodeId → List NodeId},
    group dg doc defs room path out at_ inst parent node name outer = .ok out' → Closed dg defs room node := by
  induction room with
  | zero =>
    intro path out out' at_ inst parent node name outer ended
    obtain ⟨_, _, _, _, ⟨⟩, _⟩ := group_ok ended
  | succ room ih =>
    intro path out out' at_ inst parent node name outer ended
    obtain ⟨_, defn, ports, locals, ⟨⟩, ⟨-, -, found⟩, -, named, ended⟩ := group_ok ended
    have named' : namesOn dg defn.nodes = locals := by rw [namesOn, named]; rfl
    refine ⟨defn, found, fun g member => ?_⟩
    rw [namedGroups, named'] at member
    obtain ⟨_, _, turn⟩ := foldlM_turns ended g member
    exact ih turn

theorem expand_closed (expanded : expand dg doc = .ok out) :
    ∀ g ∈ (tabs doc).flatMap (namedGroups dg), Closed dg (definitionTable doc) maxDepth g.1 := by
  intro g member
  obtain ⟨ws, isTab, inner⟩ := List.mem_flatMap.1 member
  obtain ⟨defs, indexed, expanded⟩ := expand_ok expanded
  obtain ⟨_, _, turn⟩ := foldlM_turns expanded ws isTab
  obtain ⟨locals, named, turn⟩ := expandTab_ok turn
  have named' : namesOn dg ws.nodes = locals := by rw [namesOn, named]; rfl
  rw [namedGroups, named'] at inner
  obtain ⟨_, _, closed⟩ := foldlM_turns turn g inner
  rw [definitionTable, indexed]
  exact group_closed closed

/-- **No name is spelled twice** in a document that expands exactly where it is so on
every canvas. -/
theorem names_nodup_iff (expanded : expand dg doc = .ok out) :
    ((scopes dg doc).flatMap (spelled labels)).Nodup ↔ Clear labels dg doc := by
  have groups : ((tabs doc).flatMap fun ws => (namedGroups dg ws).map fun g => (ws, g)).map Prod.snd =
      (tabs doc).flatMap (namedGroups dg) := by
    rw [List.map_flatMap]
    refine List.flatMap_congr fun ws _ => ?_
    rw [List.map_map]
    exact List.map_id _
  have closed : ∀ p ∈ (tabs doc).flatMap fun ws => (namedGroups dg ws).map fun g => (ws, g),
      Closed dg (definitionTable doc) maxDepth p.2.1 := fun p member =>
    expand_closed expanded p.2 (groups ▸ List.mem_map.2 ⟨p, member, rfl⟩)
  have mem : ∀ p ∈ (tabs doc).flatMap fun ws => (namedGroups dg ws).map fun g => (ws, g), ∀ x,
      x ∈ (below dg (definitionTable doc) p.1 maxDepth [] p.2.1 p.2.2).flatMap (spelled labels) ↔
        ∃ t, Spells labels dg (definitionTable doc) p.2.1 t ∧ x = "" ++ (p.2.2 ++ t) := fun p member x => by
    rw [mem_spelled (closed p member)]
    simp only [String.empty_append]
  rw [scopes_eq, List.flatMap_assoc, List.nodup_flatMap, pairwise_apart_iff Prod.snd mem]
  constructor
  · rintro ⟨each, apart⟩
    refine ⟨groups ▸ List.pairwise_map.2 apart, fun s member => ?_⟩
    rw [scopes_eq] at member
    obtain ⟨p, written, inner⟩ := List.mem_flatMap.1 member
    exact (below_spelled (closed p written)).1 (each p written) s inner
  · intro clear
    refine ⟨fun p written => (below_spelled (closed p written)).2 fun s inner => ?_,
      List.pairwise_map.1 (groups.symm ▸ clear.onTabs)⟩
    refine clear.inside s ?_
    rw [scopes_eq]
    exact List.mem_flatMap.2 ⟨p, written, inner⟩

/-- The names an instance gives its apps. -/
theorem Embodies.apps {i : Instance} {s : Scope} (stands : Embodies dg i s) :
    i.content.nodes.filterMap chosenName = spelled appLabels s := by
  obtain ⟨ports, content, _⟩ := stands.content
  rw [content]
  simp only [stampContent, spelled, appLabels, List.filterMap_map, List.filterMap_filter, List.map_filterMap]
  refine List.filterMap_congr fun n _ => ?_
  obtain ⟨id, pos, size, pos3d, panel3d, kind⟩ := n
  cases kind with
  | app dep own options args token => cases own <;> simp [stampNode, chosenName, portOf, SnapKind.isGroup, String.append_assoc]
  | _ => simp [stampNode, chosenName, portOf, SnapKind.isGroup]

/-- **Names are unique across a document** that expands exactly where, canvas by canvas,
no two groups spell one name, of an instance or of an app. -/
theorem names_unique_iff (expanded : expand dg doc = .ok out) :
    ((out.map Instance.name).Nodup ∧ (out.flatMap fun i => i.content.nodes.filterMap chosenName).Nodup) ↔
      Clear ownLabel dg doc ∧ Clear appLabels dg doc := by
  have instances : out.map Instance.name = (scopes dg doc).flatMap (spelled ownLabel) := by
    rw [map_of_forall₂ (g := Scope.name) (fun _ _ _ stands => stands.name) (expand_scopes expanded),
      List.map_eq_flatMap]
    exact List.flatMap_congr fun s _ => by simp [spelled, ownLabel]
  have apps : (out.flatMap fun i => i.content.nodes.filterMap chosenName) =
      (scopes dg doc).flatMap (spelled appLabels) := by
    rw [List.flatMap_def, List.flatMap_def]
    exact congrArg List.flatten (map_of_forall₂ (f := fun i : Instance => i.content.nodes.filterMap chosenName)
      (g := spelled appLabels) (fun _ _ _ stands => stands.apps) (expand_scopes expanded))
  rw [instances, apps, names_nodup_iff expanded, names_nodup_iff expanded]

end Documents

/-! ## Poles -/

/-- A definition that names its app. -/
def namedDefinition : Workspace where
  id := 20
  name := some "voice"
  tab := false
  nodes := [{ id := 22, kind := .app "synth" (some "arp") [] [] none }]

/-- A tab with two groups of the given names. -/
def leadsDocument (first second : String) : Document where
  workspaces := [
    { id := 1
      nodes := [{ id := 3, kind := .group "voice" (some first) [] [] },
        { id := 4, kind := .group "voice" (some second) [] [] }] },
    namedDefinition]

/-- Two groups with names of their own, and the apps in them. -/
theorem voices_named :
    ∃ out, expand Digests.apart (leadsDocument "lead" "bass") = .ok out ∧
      (((out.map Instance.name).Nodup ∧ (out.flatMap fun i => i.content.nodes.filterMap chosenName).Nodup) ↔
        Clear ownLabel Digests.apart (leadsDocument "lead" "bass") ∧
          Clear appLabels Digests.apart (leadsDocument "lead" "bass")) := by
  obtain ⟨out, expanded, _⟩ : ∃ out, expand Digests.apart (leadsDocument "lead" "bass") = .ok out ∧ out.length = 2 :=
    ok_of_observed (by decide)
  exact ⟨out, expanded, names_unique_iff expanded⟩

/-- Two groups a tab gives one name, and two apps called the same. -/
theorem leads_named :
    ∃ out, expand Digests.apart (leadsDocument "lead" "lead") = .ok out ∧
      out.map Instance.name = ["lead", "lead"] ∧
      (out.flatMap fun i => i.content.nodes.filterMap chosenName) = ["lead-arp", "lead-arp"] := by
  obtain ⟨out, expanded, seen⟩ : ∃ out, expand Digests.apart (leadsDocument "lead" "lead") = .ok out ∧
      (out.map Instance.name, out.flatMap fun i => i.content.nodes.filterMap chosenName) =
        (["lead", "lead"], ["lead-arp", "lead-arp"]) :=
    ok_of_observed (by decide)
  exact ⟨out, expanded, Prod.mk.inj seen⟩

end Wk.Instancing
