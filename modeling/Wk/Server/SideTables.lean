/-
# Wk.Server.SideTables -- every side-table row belongs to a node, and a tab stays

Seventeen tables hold what a node's base record does not.  `SideTable` names them,
`Housed` says that each row's key is a live node -- and, for the four tables that
only their own kind's removal clears (`clearedBy`), a node of that kind.  Every edit
keeps this but two: restoring the pose of a node that did not come up, and placing a
node over a live one of such a kind.
-/
import Wk.Server.Edits

namespace Wk

open Wk.Library

set_option autoImplicit false

/-- The tables keyed by a node besides its record. -/
inductive SideTable where
  | nodeArgs | nodeDeps | nodeNames | pos3d | hiddenPanel3d | fileNodes | hostPorts | noteText
  | midiIns | midiOuts | multicasts | hostServices | boundaryPorts | groups | nodeTokens
  | irohSecrets | veilidIds
  deriving DecidableEq, Repr

/-- The kind whose own removal clears this table; `none` if every removal does. -/
def SideTable.clearedBy : SideTable → Option Kind
  | midiIns => some .midiIn
  | midiOuts => some .midiOut
  | multicasts => some .multicast
  | groups => some .group
  | _ => none

namespace Canvas

/-- The keys of one side table. -/
def keysOf (c : Canvas) : SideTable → List NodeId
  | .nodeArgs => c.nodeArgs.keys
  | .nodeDeps => c.nodeDeps.keys
  | .nodeNames => c.nodeNames.keys
  | .pos3d => c.pos3d.keys
  | .hiddenPanel3d => c.hiddenPanel3d.keys
  | .fileNodes => c.fileNodes.keys
  | .hostPorts => c.hostPorts.keys
  | .noteText => c.noteText.keys
  | .midiIns => c.midiIns.keys
  | .midiOuts => c.midiOuts.keys
  | .multicasts => c.multicasts.keys
  | .hostServices => c.hostServices.keys
  | .boundaryPorts => c.boundaryPorts.keys
  | .groups => c.groups.keys
  | .nodeTokens => c.nodeTokens.keys
  | .irohSecrets => c.irohSecrets.keys
  | .veilidIds => c.veilidIds.keys

/-- Whether a row of `t` under `id` has its node. -/
def Houses (c : Canvas) (t : SideTable) (id : NodeId) : Prop :=
  match t.clearedBy with
  | none => id ∈ c.nodes
  | some kind => c.kindOf id = some kind

/-- Every side-table row has its node, and there is a tab. -/
structure Housed (c : Canvas) : Prop where
  rows : ∀ t, ∀ id ∈ c.keysOf t, c.Houses t id
  tabs : c.workspaces.Nodup
  tab : c.workspaces ≠ []

theorem Houses.node {c : Canvas} {t : SideTable} {id : NodeId} (home : c.Houses t id) :
    id ∈ c.nodes := by
  unfold Houses at home
  split at home
  · exact home
  · exact mem_nodes_of_kindOf home

/-- What a row needs depends on the node's record only. -/
theorem Houses.congr {c c' : Canvas} {t : SideTable} {id : NodeId} (home : c.Houses t id)
    (present : id ∈ c.nodes → id ∈ c'.nodes) (kind : c'.kindOf id = c.kindOf id) :
    c'.Houses t id := by
  unfold Houses at home ⊢
  cases cleared : t.clearedBy with
  | none =>
    rw [cleared] at home
    exact present home
  | some k =>
    rw [cleared] at home
    exact kind.trans home

end Canvas

namespace Graph

/-! ## What each edit does to the keys -/

theorem mem_insert_keys {β : Type} {rows : Table NodeId β} {id n : NodeId} {v : β}
    (member : n ∈ (rows.insert id v).keys) : n ∈ rows.keys ∨ n = id := by
  rcases (AList.mem_insert rows).1 (AList.mem_keys.1 member) with same | old
  · exact .inr same
  · exact .inl (AList.mem_keys.2 old)

/-- A placement adds rows for its own node only, and to a table cleared by one kind
only if it is of that kind. -/
theorem mem_place_keysOf {g : Graph} {id ws : NodeId} {pos size : Vec2} {payload : Payload}
    {t : SideTable} {n : NodeId} (member : n ∈ (g.place id ws pos size payload).keysOf t) :
    n ∈ g.keysOf t ∨ (n = id ∧ ∀ kind, t.clearedBy = some kind → payload.kind = kind) := by
  cases payload with
  | app dep name args token =>
    cases token <;> cases t <;>
      first
        | exact .inl member
        | exact (mem_insert_keys member).imp_right fun same => ⟨same, by simp [SideTable.clearedBy]⟩
  | _ =>
    cases t <;>
      first
        | exact .inl member
        | exact (mem_insert_keys member).imp_right fun same =>
          ⟨same, by simp [SideTable.clearedBy, Payload.kind]⟩

/-- An update adds a row only where the source tests for the node. -/
theorem mem_update_keysOf {g : Graph} {id : NodeId} {u : Update} {t : SideTable} {n : NodeId}
    (member : n ∈ (g.update id u).keysOf t) : n ∈ g.keysOf t ∨ (n = id ∧ g.Houses t id) := by
  have altered : ∀ {β : Type} {rows : Table NodeId β} {f : β → β}, n ∈ (alter rows id f).keys →
      n ∈ rows.keys := fun member => AList.mem_keys.2 (mem_alter.1 (AList.mem_keys.1 member))
  have erased : ∀ {β : Type} {rows : Table NodeId β}, n ∈ (rows.erase id).keys → n ∈ rows.keys :=
    fun member => AList.mem_keys.2 (AList.mem_erase.1 (AList.mem_keys.1 member)).2
  cases u <;> simp only [update] at member <;>
    (try split at member) <;> cases t <;>
    first
      | exact .inl member
      | exact .inl (altered member)
      | exact .inl (erased member)
      | exact (mem_insert_keys member).imp_right fun same => ⟨same, ‹_›⟩

theorem mem_erase_keys {β : Type} {rows : Table NodeId β} {id n : NodeId}
    (member : n ∈ (rows.erase id).keys) : n ∈ rows.keys ∧ n ≠ id := by
  obtain ⟨other, old⟩ := AList.mem_erase.1 (AList.mem_keys.1 member)
  exact ⟨AList.mem_keys.2 old, other⟩

/-- Forgetting a node clears every table but those its own kind's removal clears. -/
theorem mem_forget_keysOf {g : Graph} {id : NodeId} {t : SideTable} {n : NodeId}
    (member : n ∈ (g.forget id).keysOf t) : n ∈ g.keysOf t ∧ (t.clearedBy = none → n ≠ id) := by
  cases t with
  | midiIns => exact ⟨member, nofun⟩
  | midiOuts => exact ⟨member, nofun⟩
  | multicasts => exact ⟨member, nofun⟩
  | groups => exact ⟨AList.mem_keys.2 (Table.mem_mapValues.1 (AList.mem_keys.1 member)), nofun⟩
  | _ => exact (mem_erase_keys member).imp_right fun other _ => other

/-- A kind's removal clears the table it owns, and adds no row. -/
theorem mem_dropOwn_keysOf {g : Graph} {id : NodeId} {t : SideTable} {n : NodeId}
    (member : n ∈ (g.dropOwn id).keysOf t) :
    n ∈ g.keysOf t ∧ (∀ kind, t.clearedBy = some kind → g.kindOf id = some kind → n ≠ id) := by
  unfold dropOwn at member
  split at member <;> rename_i kindIs <;> cases t <;>
    first
      | exact ⟨(mem_erase_keys member).1, fun _ _ _ => (mem_erase_keys member).2⟩
      | exact ⟨member, by simp_all [SideTable.clearedBy]⟩

/-- A removed node has no row left. -/
theorem mem_remove_keysOf {g : Graph} {order : List Pair → List Pair} {id : NodeId}
    {t : SideTable} {n : NodeId} (housed : ∀ n ∈ g.keysOf t, g.Houses t n)
    (present : id ∈ g.nodes) (member : n ∈ (g.remove order id).keysOf t) :
    n ∈ g.keysOf t ∧ n ≠ id := by
  have canvas : (g.dropWires order id).toCanvas = g.toCanvas := dropWires_toCanvas g order id
  rw [remove, if_pos present] at member
  obtain ⟨kept, general⟩ := mem_forget_keysOf member
  obtain ⟨old, own⟩ := mem_dropOwn_keysOf kept
  rw [canvas] at old own
  refine ⟨old, ?_⟩
  cases cleared : t.clearedBy with
  | none => exact general cleared
  | some kind =>
    rintro rfl
    have home := housed n old
    rw [Canvas.Houses, cleared] at home
    exact own kind cleared home rfl

/-! ## Each edit keeps every row housed -/

/-- The two edits that can leave a row without its node: a pose restored for a node
that is not there, and a placement over a live node whose rows only its own removal
clears. -/
def KeepsHomes (g : Graph) : Edit → Prop
  | .pose id pos3d panel3d => id ∈ g.nodes ∨ (pos3d = none ∧ panel3d = true)
  | .place id _ _ _ payload =>
    ∀ t kind, SideTable.clearedBy t = some kind → g.kindOf id = some kind → payload.kind = kind
  | _ => True

theorem housed_place {g : Graph} {id ws : NodeId} {pos size : Vec2} {payload : Payload}
    (good : g.Housed) (keeps : KeepsHomes g (.place id ws pos size payload)) :
    (g.place id ws pos size payload).Housed := by
  have tabs : (g.place id ws pos size payload).workspaces = g.workspaces := by
    cases payload with
    | app dep name args token => cases token <;> rfl
    | _ => rfl
  refine ⟨?_, by rw [tabs]; exact good.tabs, by rw [tabs]; exact good.tab⟩
  intro t n member
  by_cases same : n = id
  · subst same
    unfold Canvas.Houses
    cases cleared : t.clearedBy with
    | none => simp
    | some kind =>
      simp only [place_kindOf, if_true]
      rcases mem_place_keysOf member with old | ⟨_, fits⟩
      · have home := good.rows t n old
        rw [Canvas.Houses, cleared] at home
        rw [keeps t kind cleared home]
      · rw [fits kind cleared]
  · have old : n ∈ g.keysOf t := (mem_place_keysOf member).resolve_right fun new => same new.1
    refine (good.rows t n old).congr (fun present => ?_) (by rw [place_kindOf, if_neg same])
    rw [place_nodes]
    exact (AList.mem_insert _).2 (.inr present)

theorem housed_update {g : Graph} {id : NodeId} {u : Update} (good : g.Housed) :
    (g.update id u).Housed := by
  have tabs : (g.update id u).workspaces = g.workspaces := by
    cases u <;> simp only [update] <;> first | rfl | (split <;> rfl)
  refine ⟨?_, by rw [tabs]; exact good.tabs, by rw [tabs]; exact good.tab⟩
  intro t n member
  have home : g.Houses t n := by
    rcases mem_update_keysOf member with old | ⟨rfl, home⟩
    · exact good.rows t n old
    · exact home
  refine home.congr (fun present => ?_) (update_kindOf g id n u)
  exact (mem_update_nodes g id n u).2 present

theorem housed_remove {g : Graph} {order : List Pair → List Pair} {id : NodeId} (good : g.Housed) :
    (g.remove order id).Housed := by
  by_cases present : id ∈ g.nodes
  · have tabs : (g.remove order id).workspaces = g.workspaces := by
      rw [remove, if_pos present]
      have own : ((g.dropWires order id).dropOwn id).workspaces =
          (g.dropWires order id).workspaces := by
        unfold dropOwn
        split <;> rfl
      exact own.trans (by rw [dropWires_toCanvas])
    refine ⟨?_, by rw [tabs]; exact good.tabs, by rw [tabs]; exact good.tab⟩
    intro t n member
    obtain ⟨old, other⟩ := mem_remove_keysOf (good.rows t) present member
    refine (good.rows t n old).congr (fun here => ?_) (by rw [remove_kindOf, if_neg other])
    rw [remove, if_pos present, forget_nodes, unwire_nodes]
    exact AList.mem_erase.2 ⟨other, here⟩
  · rw [remove_absent g present]
    exact good

theorem housed_addTab {g : Graph} {index : Nat} {id : NodeId} (good : g.Housed) :
    (g.addTab index id).Housed := by
  unfold addTab
  split
  · exact good
  · next new =>
      have perm := List.perm_insertIdx id g.workspaces (Nat.min_le_right index g.workspaces.length)
      refine ⟨good.rows, perm.nodup_iff.2 (List.nodup_cons.2 ⟨new, good.tabs⟩), ?_⟩
      exact List.ne_nil_of_mem (perm.mem_iff.2 (List.mem_cons_self ..))

/-- Dropping one of several distinct tabs leaves one. -/
theorem filter_tab_ne_nil {tabs : List NodeId} (distinct : tabs.Nodup) (several : 1 < tabs.length)
    (id : NodeId) : (tabs.filter fun t => t ≠ id) ≠ [] := by
  intro none
  have single : ∀ t ∈ tabs, t = id := by
    intro t member
    have kept := List.filter_eq_nil_iff.1 none t member
    simpa using kept
  rw [List.eq_replicate_of_mem single, List.nodup_replicate] at distinct
  omega

theorem housed_removeTab {g : Graph} {id : NodeId} (good : g.Housed) : (g.removeTab id).Housed := by
  unfold removeTab
  split
  · exact good
  · next enough =>
      simp only [Bool.or_eq_true, decide_eq_true_eq, not_or, not_le, not_not] at enough
      exact ⟨good.rows, good.tabs.filter _, filter_tab_ne_nil good.tabs enough.1 id⟩

/-- An edit of side tables alone: each row there afterwards was there, or has its
node. -/
theorem housed_of_rows {g g' : Graph} (good : g.Housed) (nodes : g'.nodes = g.nodes)
    (tabs : g'.workspaces = g.workspaces)
    (rows : ∀ t, ∀ n ∈ g'.keysOf t, n ∈ g.keysOf t ∨ g.Houses t n) : g'.Housed := by
  refine ⟨?_, by rw [tabs]; exact good.tabs, by rw [tabs]; exact good.tab⟩
  intro t n member
  have home : g.Houses t n := (rows t n member).elim (good.rows t n) id
  exact home.congr (by rw [nodes]; exact id) (by rw [Canvas.kindOf, nodes]; rfl)

theorem housed_pose {g : Graph} {id : NodeId} {pos3d : Option Pose} {panel3d : Bool}
    (good : g.Housed) (keeps : KeepsHomes g (.pose id pos3d panel3d)) :
    ((Edit.pose id pos3d panel3d).apply g).Housed := by
  rcases keeps with present | ⟨rfl, rfl⟩
  · have added : ∀ {β : Type} {rows : Table NodeId β} {v : β} {n : NodeId},
        n ∈ (rows.insert id v).keys → n ∈ rows.keys ∨ n ∈ g.nodes := by
      intro β rows v n member
      rcases (AList.mem_insert rows).1 (AList.mem_keys.1 member) with rfl | old
      · exact .inr present
      · exact .inl (AList.mem_keys.2 old)
    have rows : ∀ t, ∀ n ∈ ((Edit.pose id pos3d panel3d).apply g).keysOf t,
        n ∈ g.keysOf t ∨ g.Houses t n := by
      intro t n member
      cases pos3d <;> cases panel3d <;> cases t <;>
        first
          | exact .inl member
          | exact added member
    cases pos3d <;> cases panel3d <;> exact housed_of_rows good rfl rfl rows
  · exact good

theorem housed_keepTokens {g : Graph} {verifies : Bytes → Bool} (good : g.Housed) :
    ((Edit.keepTokens verifies).apply g).Housed := by
  refine housed_of_rows good rfl rfl fun t n member => .inl ?_
  cases t with
  | nodeTokens =>
    obtain ⟨token, found, _⟩ := Table.mem_retain.1 (AList.mem_keys.1 member)
    exact AList.mem_keys.2 (Table.mem_of_lookup found)
  | _ => exact member

/-- **One edit.** Every edit but the two keeps every row housed. -/
theorem housed_edit {g : Graph} {e : Edit} (keeps : KeepsHomes g e) (good : g.Housed) :
    (e.apply g).Housed := by
  cases e with
  | place id ws pos size payload => exact housed_place good keeps
  | pose id pos3d panel3d => exact housed_pose good keeps
  | remove order id => exact housed_remove good
  | update id u => exact housed_update good
  | addTab index id => exact housed_addTab good
  | removeTab id => exact housed_removeTab good
  | dropNet key =>
    simp only [Edit.apply, dropNet_toCanvas]
    exact good
  | keepTokens verifies => exact housed_keepTokens good
  | nameTab id name => exact ⟨good.rows, good.tabs, good.tab⟩
  | _ => exact good

end Graph

/-- A server starts with empty side tables and the document's tabs. -/
theorem Document.Resolved.housed {doc : Document} (resolved : doc.Resolved) :
    (Graph.ofDocument doc).Housed where
  rows := by
    intro t n member
    cases t <;> exact absurd member List.not_mem_nil
  tabs := by
    have fewer : (doc.workspaces.filter fun ws => ws.tab).Sublist doc.workspaces :=
      List.filter_sublist
    exact resolved.ids.sublist (fewer.map Workspace.id)
  tab := by
    obtain ⟨ws, member, tab⟩ := resolved.tab
    exact List.ne_nil_of_mem (List.mem_map_of_mem (List.mem_filter.2 ⟨member, tab⟩))

namespace Server

/-- **No orphan side-table rows.** In every session from a resolved document in which
poses are restored only for nodes that came up, and no placement turns a live MIDI,
Multicast or group node into another kind, every side-table key is a node, and there
is a tab: the history of the server carries it. -/
theorem run_side_tables_housed {w : World} {h : Host} {doc : Document} {steps : List Step}
    {s : Server (Graph.ofDocument doc)} (_ran : run w h doc steps = .ok s)
    (resolved : doc.Resolved) (met : s.history.Every Graph.KeepsHomes) :
    (∀ t, ∀ id ∈ s.graph.keysOf t, id ∈ s.graph.nodes) ∧ s.graph.workspaces ≠ [] := by
  have good : s.graph.Housed :=
    s.history.every_keeps (P := fun g => g.Housed) resolved.housed
      (fun _ _ keeps good => Graph.housed_edit keeps good) met
  exact ⟨fun t id member => (good.rows t id member).node, good.tab⟩

section Poles

/-- A tab with a hardware MIDI input and an uplink standing in a scene. -/
def sceneDocument : Document where
  workspaces := [
    { id := 1
      nodes := [
        { id := 10, kind := .midiIn "keys" },
        { id := 11, kind := .iroh none none, pos3d := some (1, 2, 3, 4) }] }]

theorem sceneDocument_resolved : sceneDocument.Resolved where
  ids := by decide
  tab := ⟨_, List.mem_cons_self .., rfl⟩

/-- Poses are restored for live nodes, and nothing is placed over a live node. -/
def placesApart (g : Graph) : Edit → Bool
  | .pose id _ _ => id ∈ g.nodes
  | .place id _ _ _ _ => id ∉ g.nodes
  | _ => true

theorem placesApart_sound (g : Graph) (e : Edit) (passed : placesApart g e = true) :
    Graph.KeepsHomes g e := by
  cases e with
  | pose id pos3d panel3d => exact .inl (by simpa [placesApart] using passed)
  | place id ws pos size payload =>
    intro t kind _ live
    have absent : id ∉ g.nodes := by simpa [placesApart] using passed
    exact absurd (Canvas.mem_nodes_of_kindOf live) absent
  | _ => trivial

/-- The session: the input is deleted, an app-less tab opened and closed again. -/
def sceneSteps (h : Host) : List Step :=
  [.command h (.delete (.node 10)), .command h (.create (.workspace 2)), .tick h, .command h .undo]

theorem run_side_tables_housed_scene :
    ∃ s, run .plain (.plain fun _ => none) sceneDocument (sceneSteps (.plain fun _ => none)) = .ok s ∧
      s.graph.pos3d.keys = [11] ∧ s.graph.workspaces = [1] ∧
      ∀ id ∈ s.graph.keysOf .pos3d, id ∈ s.graph.nodes := by
  have seen : (run .plain (.plain fun _ => none) sceneDocument
      (sceneSteps (.plain fun _ => none))).toOption.map
        (fun s => (s.graph.pos3d.keys, s.graph.workspaces, s.history.check placesApart)) =
      some ([11], [1], true) := by
    decide
  obtain ⟨s, ran, seen⟩ := ok_of_observed seen
  simp only [Prod.mk.injEq] at seen
  obtain ⟨poses, tabs, passes⟩ := seen
  have met := s.history.every_of_check placesApart_sound passes
  exact ⟨s, ran, poses, tabs,
    (run_side_tables_housed ran sceneDocument_resolved met).1 .pos3d⟩

/-- An uplink that does not start leaves its pose behind. -/
theorem failed_uplink_orphans_pose :
    ∃ s, run .plain { Host.plain (fun _ => none) with uplink := fun _ _ => none } sceneDocument [] =
        .ok s ∧ 11 ∈ s.graph.keysOf .pos3d ∧ 11 ∉ s.graph.nodes := by
  have seen : (run .plain { Host.plain (fun _ => none) with uplink := fun _ _ => none }
      sceneDocument []).toOption.map
        (fun s => (decide (11 ∈ s.graph.keysOf .pos3d), decide (11 ∉ s.graph.nodes))) =
      some (true, true) := by
    decide
  obtain ⟨s, ran, seen⟩ := ok_of_observed seen
  simp only [Prod.mk.injEq, decide_eq_true_eq] at seen
  exact ⟨s, ran, seen⟩

end Poles

end Server

end Wk
