/-
# Wk.Server.Homes -- every node lives on a tab or in a live instance

A node's home is its `ws`: a tab, or the instance whose expansion placed it.  The
server never checks that the two sorts of home are different ids, and a client
supplies some of them, so `Homes` says what keeps them apart: tabs take no id that a
group has or an expansion derives, an instance's record lists every node placed in
it, and the id of an instance stands for one definition throughout a session, so
expanding it again lists the same nodes.  The undo stack brings nodes back to their
homes because it brings back the tabs first (`StackHomes`).
-/
import Wk.Instancing.Forest
import Wk.Server.Effects

namespace Wk

open Wk.Library
open Wk.Instancing (Derived Apart GroupsOnce Names WrittenRoot stampedIds)

set_option autoImplicit false

/-! ## Where nodes are -/

/-- A node's kind and workspace. -/
def Canvas.placeOf (c : Canvas) (n : NodeId) : Option (Kind × NodeId) :=
  (c.nodes.lookup n).map fun rec => (rec.kind, rec.ws)

namespace Graph

theorem placeOf_eq_some {c : Canvas} {n ws : NodeId} {kind : Kind} :
    c.placeOf n = some (kind, ws) ↔ ∃ rec, c.nodes.lookup n = some rec ∧ rec.kind = kind ∧ rec.ws = ws := by
  simp [Canvas.placeOf, Prod.ext_iff]

theorem mem_nodes_iff_placeOf {c : Canvas} {n : NodeId} : n ∈ c.nodes ↔ ∃ place, c.placeOf n = some place := by
  rw [Table.mem_iff_lookup, Canvas.placeOf]
  constructor
  · rintro ⟨rec, found⟩
    exact ⟨_, by rw [found]; rfl⟩
  · rintro ⟨place, found⟩
    obtain ⟨rec, found, _⟩ := Option.map_eq_some_iff.1 found
    exact ⟨rec, found⟩

theorem kindOf_eq_placeOf (c : Canvas) (n : NodeId) : c.kindOf n = (c.placeOf n).map Prod.fst := by
  rw [Canvas.kindOf, Canvas.placeOf, Option.map_map]
  rfl

variable (g : Graph)

theorem place_placeOf (id ws : NodeId) (pos size : Vec2) (payload : Payload) (n : NodeId) :
    (g.place id ws pos size payload).placeOf n =
      if n = id then some (payload.kind, ws) else g.placeOf n := by
  rw [Canvas.placeOf, place_nodes, Table.lookup_insert_eq]
  split <;> rfl

/-- An update moves no node. -/
theorem update_placeOf (id n : NodeId) (u : Update) : (g.update id u).placeOf n = g.placeOf n := by
  cases u with
  | pos p =>
    simp only [update, Canvas.placeOf, alter_lookup]
    split <;> simp [Option.map_map, Function.comp_def]
  | size p =>
    simp only [update, Canvas.placeOf, alter_lookup]
    split <;> simp [Option.map_map, Function.comp_def]
  | _ =>
    simp only [update]
    first
      | rfl
      | (split <;> rfl)

theorem remove_placeOf (order : List Pair → List Pair) (id n : NodeId) :
    (g.remove order id).placeOf n = if n = id then none else g.placeOf n := by
  unfold remove
  split
  · rw [Canvas.placeOf, forget_nodes, unwire_nodes, Table.lookup_erase_eq]
    split <;> rfl
  · next absent =>
      split
      · next same =>
          rw [same, Canvas.placeOf, AList.lookup_eq_none.2 absent]
          rfl
      · rfl

theorem remove_workspaces (order : List Pair → List Pair) (id : NodeId) :
    (g.remove order id).workspaces = g.workspaces := by
  unfold remove
  split
  · have stripped : (g.dropWires order id).workspaces = g.workspaces := by rw [dropWires_toCanvas]
    rw [← stripped]
    unfold unwire dropOwn
    split <;> rfl
  · rfl

/-! ## The rows of groups -/

/-- The definition a group's row names. -/
def definitionOf (g : Graph) (id : NodeId) : Option String :=
  (g.groups.lookup id).map GroupNode.definition

theorem place_definitionOf (id ws : NodeId) (pos size : Vec2) (payload : Payload) (n : NodeId) :
    (g.place id ws pos size payload).definitionOf n =
      if n = id then payload.definition.or (g.definitionOf n) else g.definitionOf n := by
  cases payload with
  | app dep name args token => cases token <;> simp [place, definitionOf, Payload.definition]
  | group grp =>
    simp only [place, definitionOf, Payload.definition, Table.lookup_insert_eq]
    split <;> rfl
  | _ => simp [place, definitionOf, Payload.definition]

theorem update_definitionOf (id n : NodeId) {u : Update}
    (keeps : ∀ grp, u = .group grp → g.definitionOf id = some grp.definition) :
    (g.update id u).definitionOf n = g.definitionOf n := by
  cases u with
  | group grp =>
    have same := keeps grp rfl
    simp only [update, definitionOf, alter_lookup] at same ⊢
    split
    · next here =>
        subst here
        rw [Option.map_map, same]
        obtain ⟨old, found, _⟩ := Option.map_eq_some_iff.1 same
        rw [found]
        rfl
    · rfl
  | _ =>
    simp only [update]
    first
      | rfl
      | (split <;> rfl)

/-- Removing a node keeps the definitions of the rows that stay. -/
theorem remove_definitionOf {order : List Pair → List Pair} {id n : NodeId} {d : String}
    (row : (g.remove order id).definitionOf n = some d) : g.definitionOf n = some d := by
  have forgotten : ∀ g' : Graph, (g'.forget id).definitionOf n = g'.definitionOf n := by
    intro g'
    simp only [forget, definitionOf, Table.lookup_mapValues, Option.map_map]
    rfl
  unfold remove at row
  split at row
  · rw [forgotten, unwire] at row
    have stripped : (g.dropWires order id).groups = g.groups := by rw [dropWires_toCanvas]
    unfold dropOwn at row
    split at row
    · simpa [definitionOf, stripped] using row
    · simpa [definitionOf, stripped] using row
    · simpa [definitionOf, stripped] using row
    · simpa [definitionOf, stripped] using row
    · simp only [definitionOf, stripped, Table.lookup_erase_eq] at row
      split at row
      · cases row
      · exact row
    · simpa [definitionOf, stripped] using row
  · exact row

end Graph

/-! ## The groups a session has placed -/

namespace History

variable {start : Graph}

/-- A group under this id, of this definition, was placed at some time. -/
def Named (h : History start) (id : NodeId) (d : String) : Prop :=
  ∃ ws pos size grp, Edit.place id ws pos size (.group grp) ∈ h.edits ∧ grp.definition = d

theorem Named.perform {h : History start} {id : NodeId} {d : String} (named : h.Named id d) (e : Edit) :
    (h.perform e).Named id d := by
  obtain ⟨ws, pos, size, grp, member, same⟩ := named
  exact ⟨ws, pos, size, grp, List.mem_append_left _ member, same⟩

theorem named_perform {h : History start} {e : Edit} {id : NodeId} {d : String}
    (named : (h.perform e).Named id d) :
    h.Named id d ∨ ∃ ws pos size grp, e = .place id ws pos size (.group grp) ∧ grp.definition = d := by
  obtain ⟨ws, pos, size, grp, member, same⟩ := named
  rcases List.mem_append.1 member with old | new
  · exact .inl ⟨ws, pos, size, grp, old, same⟩
  · exact .inr ⟨ws, pos, size, grp, (List.mem_singleton.1 new).symm, same⟩

theorem Leads.named {ok : Graph → Edit → Prop} {h h' : History start} (led : Leads ok h h')
    {id : NodeId} {d : String} (named : h.Named id d) : h'.Named id d := by
  induction led with
  | refl => exact named
  | perform _ _ ih => exact ih.perform _

/-- A name that is new was given by one of the edits. -/
theorem Leads.named_before {ok : Graph → Edit → Prop} {h h' : History start} (led : Leads ok h h')
    {id : NodeId} {d : String} (named : h'.Named id d) :
    h.Named id d ∨ ∃ g ws pos size grp, ok g (.place id ws pos size (.group grp)) ∧ grp.definition = d := by
  induction led with
  | refl => exact .inl named
  | perform _ met ih =>
    rcases named_perform named with old | ⟨ws, pos, size, grp, rfl, same⟩
    · exact ih old
    · exact .inr ⟨_, ws, pos, size, grp, met, same⟩

end History

/-- What is asked of the ids for homes to be told apart.  Digests and minted ids do
not collide, with each other or with what the document writes; and the document
writes no group under the id of a tab, or under one id for two definitions. -/
structure Distinct (w : World) (doc : Document) (defs : Table String Workspace) : Prop where
  indexed : Instancing.definitions doc = .ok defs
  derived : Apart w.digests
  minted : Function.Injective w.mint
  mintedApart : ∀ n, ¬Derived w.digests (w.mint n)
  mintedNew : ∀ n, ∀ ws ∈ doc.workspaces, w.mint n ≠ ws.id ∧ ∀ node ∈ ws.nodes, w.mint n ≠ node.id
  tabIds : ∀ ws ∈ doc.workspaces, ¬Derived w.digests ws.id
  nodeIds : ∀ ws ∈ doc.workspaces, ∀ node ∈ ws.nodes, ¬Derived w.digests node.id
  wireEnds : ∀ ws ∈ doc.workspaces, ∀ r, ∀ l ∈ ws.links r,
    ¬Derived w.digests l.1 ∧ ¬Derived w.digests l.2
  groupsOnce : GroupsOnce defs
  single : ∀ id d d', WrittenRoot doc id d → WrittenRoot doc id d' → d = d'
  groupsApart : ∀ ws ∈ doc.workspaces, ∀ d, ¬WrittenRoot doc ws.id d

theorem Distinct.minted_ne_written {w : World} {doc : Document} {defs : Table String Workspace}
    (distinct : Distinct w doc defs) {n : Nat} {id : NodeId} {d : String} (written : WrittenRoot doc id d) :
    w.mint n ≠ id := by
  obtain ⟨ws, member, _, node, inner, rfl, _⟩ := written
  exact (distinct.mintedNew n ws member).2 node (List.mem_of_mem_filter inner)

theorem Distinct.written_not_derived {w : World} {doc : Document} {defs : Table String Workspace}
    (distinct : Distinct w doc defs) {id : NodeId} {d : String} (written : WrittenRoot doc id d) :
    ¬Derived w.digests id := by
  obtain ⟨ws, member, _, node, inner, rfl, _⟩ := written
  exact distinct.nodeIds ws member node (List.mem_of_mem_filter inner)

namespace Server

variable {doc : Document} {w : World} {defs : Table String Workspace}
  {s s' s'' : Server (Graph.ofDocument doc)}

/-- An id a tab may have: none that a group has or will get, and no derived one. -/
structure FreeTab (w : World) (s : Server (Graph.ofDocument doc)) (t : NodeId) : Prop where
  apart : ¬Derived w.digests t
  written : ∀ d, ¬WrittenRoot doc t d
  unnamed : ∀ d, ¬s.history.Named t d
  minted : ∀ n, s.minted ≤ n → w.mint n ≠ t

/-- Where node `n` may live: on a tab, unless its id is derived, or in the instance
whose record lists it. -/
def Home (w : World) (s : Server (Graph.ofDocument doc)) (n ws : NodeId) : Prop :=
  (ws ∈ s.graph.workspaces ∧ ¬Derived w.digests n) ∨
    ∃ rec, s.instances.lookup ws = some rec ∧ n ∈ rec.nodes

/-- What an instance's record says: the definition its id stands for, and every node
of it. -/
def Recorded (w : World) (defs : Table String Workspace) (s : Server (Graph.ofDocument doc)) (i : NodeId)
    (rec : InstanceRec) : Prop :=
  Names w.digests defs s.history.Named i rec.definition ∧
    ∃ defn, defs.lookup rec.definition = some defn ∧ rec.nodes = stampedIds w.digests defn i

/-- Every node but the `loose` ones has a home, and homes are told apart. -/
structure Homes (w : World) (defs : Table String Workspace) (loose : NodeId → Prop)
    (s : Server (Graph.ofDocument doc)) : Prop where
  authored : s.authored = (fresh doc).authored
  known : ∀ id d, s.history.Named id d → WrittenRoot doc id d ∨ ∃ n < s.minted, w.mint n = id
  once : ∀ id d d', s.history.Named id d → s.history.Named id d' → d = d'
  tabs : ∀ t ∈ s.graph.workspaces, s.FreeTab w t
  rows : ∀ id d, s.graph.definitionOf id = some d → s.history.Named id d
  kinds : ∀ id ws, s.graph.placeOf id = some (.group, ws) → ∃ d, s.history.Named id d
  records : ∀ i rec, s.instances.lookup i = some rec → s.Recorded w defs i rec
  home : ∀ n kind ws, s.graph.placeOf n = some (kind, ws) → ¬loose n → s.Home w n ws
  unplaced : ∀ u ∈ s.unplaced, ¬Derived w.digests u.2.id ∧ u.2.kind.isGroup = false
  kept : ∀ u ∈ s.unplacedWires, ¬Derived w.digests u.2.2.1 ∧ ¬Derived w.digests u.2.2.2

/-- What passes from an earlier state of a session to a later one: a group is named
anew only under a written or a newly minted id. -/
structure Onward (w : World) (s s' : Server (Graph.ofDocument doc)) : Prop where
  mints : s.minted ≤ s'.minted
  grows : ∀ id d, s.history.Named id d → s'.history.Named id d
  fresh : ∀ id d, s'.history.Named id d →
    s.history.Named id d ∨ WrittenRoot doc id d ∨ ∃ n, s.minted ≤ n ∧ n < s'.minted ∧ w.mint n = id

/-- The same, with the undo stack as it was. -/
structure Later (w : World) (s s' : Server (Graph.ofDocument doc)) : Prop extends Onward w s s' where
  undo : s'.undo = s.undo

theorem books_eq : s'.books = s.books ↔ s'.instances = s.instances ∧ s'.undo = s.undo ∧
    s'.unplaced = s.unplaced ∧ s'.unplacedWires = s.unplacedWires ∧ s'.authored = s.authored ∧
    s'.scratchTab = s.scratchTab := by
  simp only [books, Prod.mk.injEq]

theorem Later.refl (s : Server (Graph.ofDocument doc)) : Later w s s :=
  ⟨⟨le_rfl, fun _ _ => id, fun _ _ => .inl⟩, rfl⟩

theorem Later.trans (first : Later w s s') (second : Later w s' s'') : Later w s s'' where
  undo := second.undo.trans first.undo
  mints := first.mints.trans second.mints
  grows := fun i d named => second.grows i d (first.grows i d named)
  fresh := by
    intro i d named
    rcases second.fresh i d named with old | written | ⟨n, after, before, same⟩
    · rcases first.fresh i d old with old | written | ⟨n, after, before, same⟩
      · exact .inl old
      · exact .inr (.inl written)
      · exact .inr (.inr ⟨n, after, before.trans_le second.mints, same⟩)
    · exact .inr (.inl written)
    · exact .inr (.inr ⟨n, first.mints.trans after, before, same⟩)

/-- An edit that places no group names none. -/
theorem named_of_edit {e : Edit} (edits : s'.history = s.history.perform e)
    (spares : ∀ i ws pos size grp, e ≠ .place i ws pos size (.group grp)) {i : NodeId} {d : String}
    (named : s'.history.Named i d) : s.history.Named i d := by
  rw [edits] at named
  rcases History.named_perform named with old | ⟨ws, pos, size, grp, same, _⟩
  · exact old
  · exact absurd same (spares i ws pos size grp)

theorem later_of_edit {e : Edit} (edits : s'.history = s.history.perform e)
    (spares : ∀ i ws pos size grp, e ≠ .place i ws pos size (.group grp)) (minted : s'.minted = s.minted)
    (undo : s'.undo = s.undo) : Later w s s' where
  mints := minted.ge
  grows _ _ old := edits ▸ old.perform e
  fresh _ _ given := .inl (named_of_edit edits spares given)
  undo := undo

theorem Homes.once_of_edit {loose : NodeId → Prop} (homes : s.Homes w defs loose) {e : Edit}
    (edits : s'.history = s.history.perform e)
    (spares : ∀ i ws pos size grp, e ≠ .place i ws pos size (.group grp)) :
    ∀ i d d', s'.history.Named i d → s'.history.Named i d' → d = d' :=
  fun i d d' here there => homes.once i d d' (named_of_edit edits spares here) (named_of_edit edits spares there)

/-- A free id stays free. -/
theorem FreeTab.later {t : NodeId} (free : s.FreeTab w t) (later : Onward w s s') : s'.FreeTab w t where
  apart := free.apart
  written := free.written
  unnamed := by
    intro d named
    rcases later.fresh t d named with old | written | ⟨n, after, _, same⟩
    · exact free.unnamed d old
    · exact free.written d written
    · exact free.minted n after same
  minted := fun n after => free.minted n (later.mints.trans after)

theorem Homes.not_derived {loose : NodeId → Prop} (homes : s.Homes w defs loose)
    (distinct : Distinct w doc defs) {id : NodeId} {d : String} (named : s.history.Named id d) :
    ¬Derived w.digests id := by
  rcases homes.known id d named with written | ⟨n, _, rfl⟩
  · exact distinct.written_not_derived written
  · exact distinct.mintedApart n

theorem Homes.loosen {loose loose' : NodeId → Prop} (homes : s.Homes w defs loose)
    (more : ∀ n, loose n → loose' n) : s.Homes w defs loose' :=
  { homes with
    home := fun n kind ws place tight => homes.home n kind ws place fun isLoose => tight (more n isLoose) }

/-- Instances and tabs have different ids. -/
theorem Homes.tab_not_instance {loose : NodeId → Prop} (homes : s.Homes w defs loose) {t : NodeId}
    (tab : t ∈ s.graph.workspaces) : t ∉ s.instances := by
  intro live
  obtain ⟨rec, found⟩ := Table.mem_iff_lookup.1 live
  rcases (homes.records t rec found).1.root_or_derived with named | derived
  · exact (homes.tabs t tab).unnamed _ named
  · exact (homes.tabs t tab).apart derived

/-- The nodes of an instance have derived ids. -/
theorem Homes.listed_derived {loose : NodeId → Prop} (homes : s.Homes w defs loose) {i n : NodeId}
    {rec : InstanceRec} (found : s.instances.lookup i = some rec) (listed : n ∈ rec.nodes) :
    Derived w.digests n := by
  obtain ⟨_, defn, _, nodes⟩ := homes.records i rec found
  rw [nodes, stampedIds, List.mem_map] at listed
  obtain ⟨inner, _, same⟩ := listed
  exact ⟨i, inner.id, same⟩

theorem Recorded.later {i : NodeId} {rec : InstanceRec} (recorded : s.Recorded w defs i rec)
    (later : Later w s s') : s'.Recorded w defs i rec :=
  ⟨recorded.1.mono later.grows, recorded.2⟩

/-- **The frame of homes.** What has to be shown of a step: which names it gives, and
that each tab, row, record and node it changes is in order. -/
theorem Homes.carry {loose loose' : NodeId → Prop} (homes : s.Homes w defs loose) (later : Later w s s')
    (authored : s'.authored = s.authored)
    (once : ∀ id d d', s'.history.Named id d → s'.history.Named id d' → d = d')
    (tabs : ∀ t ∈ s'.graph.workspaces, t ∈ s.graph.workspaces ∨ s'.FreeTab w t)
    (rows : ∀ id d, s'.graph.definitionOf id = some d →
      s.graph.definitionOf id = some d ∨ s'.history.Named id d)
    (kinds : ∀ id ws, s'.graph.placeOf id = some (.group, ws) →
      s.graph.placeOf id = some (.group, ws) ∨ ∃ d, s'.history.Named id d)
    (records : ∀ i rec, s'.instances.lookup i = some rec →
      s.instances.lookup i = some rec ∨ s'.Recorded w defs i rec)
    (home : ∀ n kind ws, s'.graph.placeOf n = some (kind, ws) → ¬loose' n →
      (s.graph.placeOf n = some (kind, ws) ∧ ¬loose n ∧ (s.Home w n ws → s'.Home w n ws)) ∨ s'.Home w n ws)
    (unplaced : ∀ u ∈ s'.unplaced,
      u ∈ s.unplaced ∨ (¬Derived w.digests u.2.id ∧ u.2.kind.isGroup = false))
    (kept : ∀ u ∈ s'.unplacedWires,
      u ∈ s.unplacedWires ∨ (¬Derived w.digests u.2.2.1 ∧ ¬Derived w.digests u.2.2.2)) :
    s'.Homes w defs loose' where
  authored := authored.trans homes.authored
  known := by
    intro id d named
    rcases later.fresh id d named with old | written | ⟨n, _, before, same⟩
    · rcases homes.known id d old with written | ⟨n, before, same⟩
      · exact .inl written
      · exact .inr ⟨n, before.trans_le later.mints, same⟩
    · exact .inl written
    · exact .inr ⟨n, before, same⟩
  once := once
  tabs := fun t tab => (tabs t tab).elim (fun old => (homes.tabs t old).later later.toOnward) id
  rows := fun id d row => (rows id d row).elim (fun old => later.grows id d (homes.rows id d old)) fun here => here
  kinds := fun id ws place => (kinds id ws place).elim
    (fun old => (homes.kinds id ws old).imp fun d => later.grows id d) fun here => here
  records := fun i rec found => (records i rec found).elim
    (fun old => (homes.records i rec old).later later) id
  home := by
    intro n kind ws place tight
    rcases home n kind ws place tight with ⟨old, tightBefore, moves⟩ | here
    · exact moves (homes.home n kind ws old tightBefore)
    · exact here
  unplaced := fun u member => (unplaced u member).elim (homes.unplaced u) id
  kept := fun u member => (kept u member).elim (homes.kept u) id

/-! ## Wires and nodes -/

/-- Edits of wires name no group. -/
theorem Becomes.named_wires {strict : Prop} (became : Becomes (WireEdit strict) s s') {id : NodeId}
    {d : String} (named : s'.history.Named id d) : s.history.Named id d := by
  rcases became.leads.named_before named with old | ⟨_, _, _, _, _, wire, _⟩
  · exact old
  · cases wire.2

theorem Becomes.later_wires {strict : Prop} (became : Becomes (WireEdit strict) s s') : Later w s s' where
  undo := (books_eq.1 became.books).2.1
  mints := became.mints
  grows := fun _ _ => became.leads.named
  fresh := fun _ _ named => .inl (became.named_wires named)

theorem Homes.wires {strict : Prop} {loose : NodeId → Prop} (homes : s.Homes w defs loose)
    (became : Becomes (WireEdit strict) s s') : s'.Homes w defs loose := by
  have canvas := became.toCanvas
  have places : ∀ n, s'.graph.placeOf n = s.graph.placeOf n := fun n => by rw [canvas]
  have tabs : s'.graph.workspaces = s.graph.workspaces := by rw [canvas]
  have rows : ∀ n, s'.graph.definitionOf n = s.graph.definitionOf n := fun n => by
    rw [Graph.definitionOf, Graph.definitionOf, canvas]
  obtain ⟨instances, _, unplaced, kept, authored, _⟩ := books_eq.1 became.books
  refine homes.carry became.later_wires authored ?_ ?_ ?_ ?_ ?_ ?_ ?_ ?_
  · exact fun id d d' here there => homes.once id d d' (became.named_wires here) (became.named_wires there)
  · exact fun t tab => .inl (tabs ▸ tab)
  · exact fun id d row => .inl ((rows id).symm.trans row)
  · exact fun id ws place => .inl ((places id).symm.trans place)
  · exact fun i rec found => .inl (instances ▸ found)
  · intro n kind ws place tight
    refine .inl ⟨(places n).symm.trans place, tight, fun home => ?_⟩
    unfold Home at home ⊢
    rwa [tabs, instances]
  · exact fun u member => .inl (unplaced ▸ member)
  · exact fun u member => .inl (kept ▸ member)

/-- What the edits about one node leave: the other nodes and rows, the tabs, and the
node itself where it was or at its spot. -/
structure About (id : NodeId) (spot : Option Spot) (g g' : Graph) : Prop where
  tabs : g'.workspaces = g.workspaces
  others : ∀ n, n ≠ id → g'.placeOf n = g.placeOf n
  self : g'.placeOf id = g.placeOf id ∨
    ∃ kind ws d, spot = some ⟨ws, d⟩ ∧ g'.placeOf id = some (kind, ws) ∧ (kind = .group → d ≠ none)
  rows : ∀ n d, g'.definitionOf n = some d →
    g.definitionOf n = some d ∨ (n = id ∧ ∃ ws, spot = some ⟨ws, some d⟩)

theorem About.edit {id : NodeId} {spot : Option Spot} {g₀ g : Graph} {e : Edit}
    (node : NodeEdit id spot g e) (about : About id spot g₀ g) : About id spot g₀ (e.apply g) := by
  cases e with
  | place n ws pos size payload =>
    obtain ⟨rfl, rfl⟩ := node
    refine ⟨?_, fun m other => ?_, .inr ⟨payload.kind, ws, payload.definition, rfl, ?_, ?_⟩, fun m d row => ?_⟩
    · rw [← about.tabs]
      cases payload with
      | app dep name args token => cases token <;> rfl
      | _ => rfl
    · rw [Edit.apply, Graph.place_placeOf, if_neg other, about.others m other]
    · rw [Edit.apply, Graph.place_placeOf, if_pos rfl]
    · cases payload <;> simp [Payload.kind, Payload.definition]
    · rw [Edit.apply, Graph.place_definitionOf] at row
      split at row
      · next same =>
          cases defined : payload.definition with
          | none =>
            rw [defined] at row
            exact (about.rows m d row).imp_right fun ⟨_, _, spot⟩ => by simp [defined] at spot
          | some e =>
            rw [defined] at row
            cases row
            exact .inr ⟨same, ws, rfl⟩
      · next other =>
          exact (about.rows m d row).imp_right fun ⟨same, _⟩ => absurd same other
  | pose n pos3d panel3d =>
    cases pos3d <;> cases panel3d <;> exact ⟨about.tabs, about.others, about.self, about.rows⟩
  | update n u =>
    obtain ⟨rfl, plain⟩ := node
    have places := fun m => Graph.update_placeOf g n m u
    have rows := fun m => Graph.update_definitionOf g n m fun grp same => absurd same (plain grp)
    refine ⟨?_, fun m other => (places m).trans (about.others m other), ?_, fun m d row => ?_⟩
    · rw [← about.tabs]
      cases u <;> simp only [Edit.apply, Graph.update] <;> first | rfl | (split <;> rfl)
    · rw [Edit.apply, places]
      exact about.self
    · rw [Edit.apply, rows] at row
      exact about.rows m d row
  | pruneMountPaths => exact ⟨about.tabs, about.others, about.self, about.rows⟩
  | pruneServePorts => exact ⟨about.tabs, about.others, about.self, about.rows⟩
  | _ => cases node

theorem Becomes.about {id : NodeId} {spot : Option Spot} (became : Becomes (NodeEdit id spot) s s') :
    About id spot s.graph s'.graph :=
  became.leads.keeps (P := About id spot s.graph) (fun _ _ node about => about.edit node)
    ⟨rfl, fun _ _ => rfl, .inl rfl, fun _ _ => .inl⟩

/-- A group may be placed under `id`: as it was named before, as the document writes
it, or under an id minted since. -/
def Admits (w : World) (s s' : Server (Graph.ofDocument doc)) (id : NodeId) (d : String) : Prop :=
  s.history.Named id d ∨ WrittenRoot doc id d ∨ ∃ n, s.minted ≤ n ∧ n < s'.minted ∧ w.mint n = id

theorem Becomes.named_node {id : NodeId} {spot : Option Spot} (became : Becomes (NodeEdit id spot) s s')
    {i : NodeId} {d : String} (named : s'.history.Named i d) :
    s.history.Named i d ∨ (i = id ∧ ∃ ws, spot = some ⟨ws, some d⟩) := by
  rcases became.leads.named_before named with old | ⟨_, ws, _, _, grp, node, rfl⟩
  · exact .inl old
  · exact .inr ⟨node.1, ws, node.2⟩

theorem Becomes.later_node {id : NodeId} {spot : Option Spot} (became : Becomes (NodeEdit id spot) s s')
    (admits : ∀ ws d, spot = some ⟨ws, some d⟩ → s.Admits w s' id d) : Later w s s' where
  undo := (books_eq.1 became.books).2.1
  mints := became.mints
  grows := fun _ _ => became.leads.named
  fresh := by
    intro i d named
    rcases became.named_node named with old | ⟨rfl, ws, spot⟩
    · exact .inl old
    · exact admits ws d spot

/-- Placing one node where it may live keeps the homes. -/
theorem Homes.node {loose : NodeId → Prop} (distinct : Distinct w doc defs) (homes : s.Homes w defs loose)
    {id : NodeId} {spot : Option Spot} (became : Becomes (NodeEdit id spot) s s')
    (lives : ∀ ws d, spot = some ⟨ws, d⟩ → s.Home w id ws)
    (admits : ∀ ws d, spot = some ⟨ws, some d⟩ → s.Admits w s' id d)
    (named : ∀ ws d, spot = some ⟨ws, some d⟩ → s'.history.Named id d) : s'.Homes w defs loose := by
  have about := became.about
  have later := became.later_node admits
  obtain ⟨instances, _, unplaced, kept, authored, _⟩ := books_eq.1 became.books
  have sameHome : ∀ {n ws}, s.Home w n ws → s'.Home w n ws := by
    intro n ws home
    unfold Home at home ⊢
    rwa [about.tabs, instances]
  -- A name given now is the only one its id has.
  have alone : ∀ ws d d', spot = some ⟨ws, some d⟩ → s.history.Named id d' → d' = d := by
    intro ws d d' isSpot old
    rcases admits ws d isSpot with before | written | ⟨n, after, _, rfl⟩
    · exact homes.once id d' d old before
    · rcases homes.known id d' old with written' | ⟨n, _, rfl⟩
      · exact distinct.single id d' d written' written
      · exact absurd rfl (distinct.minted_ne_written written)
    · rcases homes.known _ d' old with written' | ⟨m, before, same⟩
      · exact absurd rfl (distinct.minted_ne_written written')
      · have := distinct.minted same
        omega
  refine homes.carry later authored ?_ ?_ ?_ ?_ ?_ ?_ ?_ ?_
  · intro i d d' here there
    rcases became.named_node here with old | ⟨rfl, ws, isSpot⟩ <;>
      rcases became.named_node there with old' | ⟨same, ws', isSpot'⟩
    · exact homes.once i d d' old old'
    · subst same
      exact alone ws' d' d isSpot' old
    · exact (alone ws d d' isSpot old').symm
    · rw [isSpot] at isSpot'
      cases isSpot'
      rfl
  · exact fun t tab => .inl (about.tabs ▸ tab)
  · intro n d row
    rcases about.rows n d row with old | ⟨rfl, ws, isSpot⟩
    · exact .inl old
    · exact .inr (named ws d isSpot)
  · intro n ws place
    by_cases same : n = id
    · subst same
      rcases about.self with old | ⟨kind, ws', d, isSpot, place', group⟩
      · exact .inl (old.symm.trans place)
      · rw [place'] at place
        cases place
        obtain ⟨d, rfl⟩ := Option.ne_none_iff_exists'.1 (group rfl)
        exact .inr ⟨d, named _ d isSpot⟩
    · exact .inl ((about.others n same).symm.trans place)
  · exact fun i rec found => .inl (instances ▸ found)
  · intro n kind ws place tight
    by_cases same : n = id
    · subst same
      rcases about.self with old | ⟨kind', ws', d, isSpot, place', _⟩
      · exact .inl ⟨old.symm.trans place, tight, sameHome⟩
      · rw [place'] at place
        cases place
        exact .inr (sameHome (lives _ d isSpot))
    · exact .inl ⟨(about.others n same).symm.trans place, tight, sameHome⟩
  · exact fun u member => .inl (unplaced ▸ member)
  · exact fun u member => .inl (kept ▸ member)

end Server

end Wk
