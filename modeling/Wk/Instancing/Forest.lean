/-
# Wk.Instancing.Forest -- the instances of an expansion, parents first

`expand` emits a forest: a root for every group of a tab, and below an instance one
for every group of its definition, each after its parent.  `Grows` says so, one
instance at a time; what holds of every root, and passes from an instance to those
nested in it, holds of every instance.
-/
import Wk.Instancing.Collapse

namespace Wk

open Wk.Library

set_option autoImplicit false

namespace Instancing

/-- An instance holds its definition, stamped. -/
def Holds (dg : Digests) (defs : Table String Workspace) (i : Instance) : Prop :=
  ∃ defn ports, defs.lookup i.definition = some defn ∧
    i.content = stampContent dg i.id i.name defn ports

/-- A list of instances in which every one is a root or comes after its parent. -/
inductive Grows (dg : Digests) (defs : Table String Workspace) (roots : NodeId → String → Prop) :
    List Instance → Prop where
  | nil : Grows dg defs roots []
  | root {out : List Instance} {i : Instance} (grown : Grows dg defs roots out)
      (top : i.parent = none) (written : roots i.id i.definition) (holds : Holds dg defs i) :
      Grows dg defs roots (out ++ [i])
  | nested {out : List Instance} {p i : Instance} {defn : Workspace} {n : NodeSnap}
      (grown : Grows dg defs roots out) (above : p ∈ out) (below : i.parent = some p.id)
      (defined : defs.lookup p.definition = some defn) (written : n ∈ defn.groupsIn)
      (derived : i.id = dg.derive p.id n.id) (definition : i.definition = groupDefinition n.kind)
      (holds : Holds dg defs i) : Grows dg defs roots (out ++ [i])

variable {dg : Digests} {doc : Document} {defs : Table String Workspace}
  {roots : NodeId → String → Prop}

/-- Where a group that is about to be expanded stands: on a tab, or in the definition
of an instance already out. -/
def Stands (dg : Digests) (defs : Table String Workspace) (roots : NodeId → String → Prop)
    (out : List Instance) (inst : NodeId) (parent : Option NodeId) (definition : String) : Prop :=
  (parent = none ∧ roots inst definition) ∨
  ∃ p ∈ out, ∃ defn n, parent = some p.id ∧ defs.lookup p.definition = some defn ∧
    n ∈ defn.groupsIn ∧ inst = dg.derive p.id n.id ∧ definition = groupDefinition n.kind

theorem Grows.snoc {out : List Instance} {i : Instance} (grown : Grows dg defs roots out)
    (stands : Stands dg defs roots out i.id i.parent i.definition) (holds : Holds dg defs i) :
    Grows dg defs roots (out ++ [i]) := by
  rcases stands with ⟨top, written⟩ | ⟨p, above, defn, n, below, defined, written, derived, definition⟩
  · exact .root grown top written holds
  · exact .nested grown above below defined written derived definition holds

/-- **The walk grows.** A successful walk adds the group's own instance and then those
nested in it.  Induction on the room left. -/
theorem group_grows {room : Nat} : ∀ {path : List String} {out out' : List Instance} {at_ : Site}
    {inst : NodeId} {parent : Option NodeId} {node : NodeSnap} {name : String}
    {outer : NodeId → List NodeId},
    group dg doc defs room path out at_ inst parent node name outer = .ok out' →
    Grows dg defs roots out → Stands dg defs roots out inst parent (groupDefinition node.kind) →
    Grows dg defs roots out' ∧ ∀ i ∈ out, i ∈ out' := by
  induction room with
  | zero =>
    intro path out out' at_ inst parent node name outer ended
    obtain ⟨_, _, _, _, ⟨⟩, _⟩ := group_ok ended
  | succ room ih =>
    intro path out out' at_ inst parent node name outer ended grown stands
    obtain ⟨_, defn, ports, locals, ⟨⟩, ⟨-, -, found⟩, bound, namedAll, ended⟩ := group_ok ended
    refine foldlM_keeps (fun out'' => (Grows dg defs roots out'' ∧ ∀ i ∈ out, i ∈ out'') ∧
      ∃ here ∈ out'', here.id = inst ∧ here.definition = groupDefinition node.kind)
      ended ?_ ?_ |>.1
    · refine ⟨⟨grown.snoc stands ⟨defn, ports, found, rfl⟩, ?_⟩,
        _, List.mem_append_right _ (List.mem_singleton_self _), rfl, rfl⟩
      exact fun i member => List.mem_append_left _ member
    · rintro sofar nested member sofar' turn ⟨⟨grown, kept⟩, here, above, sameId, sameDef⟩
      have inner := (List.of_mem_zip member).1
      obtain ⟨grown', kept'⟩ := ih turn grown (.inr ⟨here, above, defn, nested.1,
        by rw [sameId], by rw [sameDef]; exact found, inner, by rw [sameId], rfl⟩)
      exact ⟨⟨grown', fun i old => kept' i (kept i old)⟩, here, kept' here above, sameId, sameDef⟩

/-- The groups of a document's tabs, with the definitions they name. -/
def WrittenRoot (doc : Document) (id : NodeId) (definition : String) : Prop :=
  ∃ ws ∈ doc.workspaces, ws.tab = true ∧ ∃ n ∈ ws.groupsIn, n.id = id ∧
    groupDefinition n.kind = definition

/-- **Expansion grows** from the groups of the document's tabs. -/
theorem expand_grows {out : List Instance} (expanded : expand dg doc = .ok out) :
    ∃ defs, definitions doc = .ok defs ∧ Grows dg defs (WrittenRoot doc) out := by
  obtain ⟨defs, indexed, expanded⟩ := expand_ok expanded
  refine ⟨defs, indexed, foldlM_keeps (Grows dg defs (WrittenRoot doc)) expanded .nil ?_⟩
  intro out ws member out' turn grown
  rw [List.mem_filter] at member
  obtain ⟨_, -, turn⟩ := expandTab_ok turn
  refine foldlM_keeps (Grows dg defs (WrittenRoot doc)) turn grown ?_
  intro out g member' out' turn grown
  have inner := (List.of_mem_zip member').1
  exact (group_grows turn grown (.inl ⟨rfl, ws, member.1, member.2, g.1, inner, rfl, rfl⟩)).1

/-! ## What every instance is -/

theorem Grows.holds {out : List Instance} (grown : Grows dg defs roots out) :
    ∀ i ∈ out, Holds dg defs i := by
  induction grown with
  | nil => simp
  | root _ _ _ holds ih | nested _ _ _ _ _ _ _ holds ih =>
    intro i member
    rcases List.mem_append.1 member with old | new
    · exact ih i old
    · rw [List.mem_singleton.1 new]
      exact holds

/-- An id that some instance's node takes. -/
def Derived (dg : Digests) (id : NodeId) : Prop := ∃ inst inner, dg.derive inst inner = id

/-- Derived ids do not collide with each other. -/
def Apart (dg : Digests) : Prop := ∀ i j a b, dg.derive i a = dg.derive j b → i = j ∧ a = b

/-- No definition writes the id of a group twice. -/
def GroupsOnce (defs : Table String Workspace) : Prop :=
  ∀ d defn, defs.lookup d = some defn → (defn.groupsIn.map NodeSnap.id).Nodup

/-- The definition an instance id stands for, read off the roots and the definitions. -/
inductive Names (dg : Digests) (defs : Table String Workspace) (roots : NodeId → String → Prop) :
    NodeId → String → Prop where
  | root {i : NodeId} {d : String} (written : roots i d) : Names dg defs roots i d
  | nested {p : NodeId} {d : String} {defn : Workspace} {n : NodeSnap}
      (parent : Names dg defs roots p d) (defined : defs.lookup d = some defn)
      (written : n ∈ defn.groupsIn) :
      Names dg defs roots (dg.derive p n.id) (groupDefinition n.kind)

theorem Names.mono {roots' : NodeId → String → Prop} (more : ∀ i d, roots i d → roots' i d)
    {i : NodeId} {d : String} (names : Names dg defs roots i d) : Names dg defs roots' i d := by
  induction names with
  | root written => exact .root (more _ _ written)
  | nested _ defined written ih => exact .nested ih defined written

theorem Names.root_or_derived {i : NodeId} {d : String} (names : Names dg defs roots i d) :
    roots i d ∨ Derived dg i := by
  cases names with
  | root written => exact .inl written
  | nested => exact .inr ⟨_, _, rfl⟩

/-- **An id stands for one definition**, where roots are written and ids derived
apart. -/
theorem Names.unique (apart : Apart dg) (once : GroupsOnce defs)
    (single : ∀ i d d', roots i d → roots i d' → d = d')
    (fresh : ∀ i d, roots i d → ¬Derived dg i) {i : NodeId} {d : String}
    (names : Names dg defs roots i d) : ∀ {d' : String}, Names dg defs roots i d' → d = d' := by
  induction names with
  | root written =>
    intro d' names'
    rcases names' with written' | ⟨_, _, _⟩
    · exact single _ _ _ written written'
    · exact absurd ⟨_, _, rfl⟩ (fresh _ _ written)
  | @nested p d defn n parent defined written ih =>
    intro d' names'
    generalize same : dg.derive p n.id = i at names'
    cases names' with
    | root written' => exact absurd ⟨_, _, same⟩ (fresh _ _ written')
    | @nested p' e defn' n' parent' defined' written' =>
      obtain ⟨rfl, sameInner⟩ := apart _ _ _ _ same
      obtain rfl := ih parent'
      obtain rfl : defn = defn' := Option.some.inj (defined.symm.trans defined')
      rw [List.inj_on_of_nodup_map (once _ _ defined) written written' sameInner]

theorem Grows.names {out : List Instance} (grown : Grows dg defs roots out) :
    ∀ i ∈ out, Names dg defs roots i.id i.definition := by
  induction grown with
  | nil => simp
  | root _ _ written _ ih =>
    intro i member
    rcases List.mem_append.1 member with old | new
    · exact ih i old
    · rw [List.mem_singleton.1 new]
      exact .root written
  | nested _ above _ defined written derived definition _ ih =>
    intro i member
    rcases List.mem_append.1 member with old | new
    · exact ih i old
    · rw [List.mem_singleton.1 new, derived, definition]
      exact .nested (ih _ above) defined written

/-- The nodes of an instance's content, by the definition and the id alone. -/
def stampedIds (dg : Digests) (defn : Workspace) (inst : NodeId) : List NodeId :=
  ((defn.nodes.filter fun n => !n.kind.isGroup).filter fun n => (portOf n).isNone).map
    fun n => dg.derive inst n.id

theorem Holds.nodes {i : Instance} (holds : Holds dg defs i) :
    ∃ defn, defs.lookup i.definition = some defn ∧ i.content.id = i.id ∧
      i.content.nodes.map NodeSnap.id = stampedIds dg defn i.id ∧
      ∀ n ∈ i.content.nodes, n.kind.isGroup = false := by
  obtain ⟨defn, ports, defined, content⟩ := holds
  refine ⟨defn, defined, by rw [content]; rfl, ?_, ?_⟩
  · rw [content]
    simp [stampContent, stampedIds, stampNode, List.map_map, Function.comp_def]
  · intro n member
    rw [content] at member
    simp only [stampContent, List.mem_map, List.mem_filter, Bool.not_eq_true'] at member
    obtain ⟨m, ⟨⟨_, plain⟩, _⟩, rfl⟩ := member
    unfold stampNode
    revert plain
    cases m.kind with
    | app dep name options args token => cases name <;> intro _ <;> rfl
    | _ => intro plain; exact plain

end Instancing

end Wk
