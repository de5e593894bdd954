/-
# Wk.Server.Saves -- homes along a whole session, and what a save writes of them

The undo stack may name tabs that are gone, but only in the order in which it brings
them back: `StackHomes` reads the stack from the top, with the tabs there will be
when an entry is reached.  With it every command keeps the homes, as long as a client
puts a new node on a tab that is there and a new tab under an id of its own
(`KeepsHomesApart`), and what a save writes is on a tab, so no expansion placed it.
-/
import Wk.Server.Settling

namespace Wk

open Wk.Library
open Wk.Instancing (Derived Apart GroupsOnce Names WrittenRoot stampedIds)

set_option autoImplicit false

namespace Server

variable {doc : Document} {w : World} {defs : Table String Workspace} (h : Host)
  {s s' s'' : Server (Graph.ofDocument doc)}

/-! ## Restoring and duplicating -/

theorem materialize_names {ws : NodeId} {snap : NodeSnap} {d : String}
    (instantiates : snap.kind.instantiates = some d) (s : Server (Graph.ofDocument doc)) (data : Bytes) :
    (s.materialize w h ws snap data).history.Named snap.id d := by
  obtain ⟨id, pos, size, pos3d, panel3d, kind⟩ := snap
  cases kind with
  | group definition name inWires outWires =>
    cases instantiates
    refine History.Named.perform ?_ _
    exact ⟨ws, pos, size, { definition := d, name, inWires, outWires },
      List.mem_append_right _ (List.mem_singleton_self _), rfl⟩
  | _ => cases instantiates

/-- Restoring a node onto a tab keeps the homes. -/
theorem materialize_settles_tab (distinct : Distinct w doc defs) {ws : NodeId} {snap : NodeSnap}
    (tab : ws ∈ s.graph.workspaces) (apart : ¬Derived w.digests snap.id)
    (admits : ∀ d, snap.kind.instantiates = some d →
      s.history.Named snap.id d ∨ WrittenRoot doc snap.id d) (data : Bytes) :
    Settles w defs s (s.materialize w h ws snap data) := by
  intro homes
  have became := materialize_becomes w h s ws snap data
  have admitted : ∀ ws' d, some (⟨ws, snap.kind.instantiates⟩ : Spot) = some ⟨ws', some d⟩ →
      s.Admits w (s.materialize w h ws snap data) snap.id d := by
    intro ws' d spot
    simp only [Option.some.injEq, Spot.mk.injEq] at spot
    exact (admits d spot.2).imp_right .inl
  refine ⟨homes.node distinct became ?_ admitted ?_, became.later_node admitted, became.about.tabs⟩
  · intro ws' d spot
    simp only [Option.some.injEq, Spot.mk.injEq] at spot
    rw [← spot.1]
    exact .inl ⟨tab, apart⟩
  · intro ws' d spot
    simp only [Option.some.injEq, Spot.mk.injEq] at spot
    exact materialize_names h spot.2 s data

/-- A node that no expansion placed is on a tab. -/
theorem Homes.tab_of_not_derived (homes : s.Homes w defs Tight) {id : NodeId} {rec : NodeRec}
    (found : s.graph.nodes.lookup id = some rec) (authored : s.isDerived id = false) :
    rec.ws ∈ s.graph.workspaces ∧ ¬Derived w.digests id := by
  have place : s.graph.placeOf id = some (rec.kind, rec.ws) := by rw [Canvas.placeOf, found]; rfl
  rcases homes.home id rec.kind rec.ws place (fun loose => loose) with tab | ⟨inst, live, _⟩
  · exact tab
  · simp only [isDerived, found, decide_eq_false_iff_not] at authored
    exact absurd (Table.mem_of_lookup live) authored

theorem duplicate_settles (distinct : Distinct w doc defs) {id : NodeId} (authored : s.isDerived id = false) :
    Settles w defs s (s.duplicate w h id) := by
  intro homes
  unfold duplicate
  split
  · exact ⟨homes, .refl s, rfl⟩
  · next rec found =>
      have lives : s.Home w (w.mint s.minted) rec.ws :=
        .inl ⟨(homes.tab_of_not_derived found authored).1, distinct.mintedApart s.minted⟩
      dsimp only
      split
      · split
        · exact ⟨homes, .refl s, rfl⟩
        · next dep _ =>
            refine Becomes.settles_plain distinct ?_ lives homes
            exact ⟨.perform .refl ⟨rfl, rfl⟩, rfl, Nat.le_succ _⟩
      · split
        · exact (addVirtualFile_becomes w s ..).settles_plain distinct lives homes
        · exact (addHostMappedFile_becomes w s ..).settles_plain distinct lives homes
        · split
          · exact (addHostPort_becomes w s ..).settles_plain distinct lives homes
          · exact (addPlain_becomes w s (by rfl) ..).settles_plain distinct lives homes
          · exact (addPlain_becomes w s (by rfl) ..).settles_plain distinct lives homes
          · exact (addIrohNode_becomes w h s ..).settles_plain distinct lives homes
          · exact (addVeilidNode_becomes w h s ..).settles_plain distinct lives homes
          · split
            · exact ⟨homes, .refl s, rfl⟩
            · next grp row =>
                have became := placeGroup_becomes w s rec.ws (w.offset rec.pos) rec.size grp
                have admitted : ∀ ws d, some (⟨rec.ws, some grp.definition⟩ : Spot) = some ⟨ws, some d⟩ →
                    s.Admits w ((s.allocId w).2.place (w.mint s.minted) rec.ws (w.offset rec.pos) rec.size
                      (.group grp)) (w.mint s.minted) d :=
                  fun ws d _ => .inr (.inr ⟨s.minted, le_rfl, Nat.lt_succ_self _, rfl⟩)
                have placed := homes.node distinct became (fun ws d spot => by cases spot; exact lives)
                  admitted fun ws d spot => by
                    cases spot
                    exact ⟨rec.ws, _, _, grp, List.mem_append_right _ (List.mem_singleton_self _), rfl⟩
                obtain ⟨homes', later, tabs⟩ := expandGroup_settles h distinct _ rec.ws (w.mint s.minted) placed
                exact ⟨homes', (became.later_node admitted).trans later, tabs.trans became.about.tabs⟩
          · exact ⟨homes, .refl s, rfl⟩

/-! ## The undo stack -/

/-- A node's snapshot has a tab to go back to, and a group's its name. -/
def SnapHomes (w : World) (s : Server (Graph.ofDocument doc)) (tabs : NodeId → Prop) (snap : Snapshot) : Prop :=
  tabs snap.ws ∧ ¬Derived w.digests snap.node.id ∧
    ∀ d, snap.node.kind.instantiates = some d → s.history.Named snap.node.id d

/-- The tabs there are once an entry has been undone. -/
def tabsAfter (tabs : NodeId → Prop) : Undo → NodeId → Prop
  | .dropWorkspace id => fun t => tabs t ∧ t ≠ id
  | .recreateWorkspace snap => fun t => tabs t ∨ t = snap.id
  | _ => tabs

/-- What an entry needs of the tabs there are. -/
def EntryHomes (w : World) (s : Server (Graph.ofDocument doc)) (tabs : NodeId → Prop) : Undo → Prop
  | .recreate snap => s.SnapHomes w tabs snap
  | .recreateWorkspace snap => s.FreeTab w snap.id ∧ ∀ n ∈ snap.nodes, s.SnapHomes w (· = snap.id) n
  | _ => True

/-- Every entry of the stack finds its tabs when it is reached. -/
def StackHomes (w : World) (s : Server (Graph.ofDocument doc)) : (NodeId → Prop) → List Undo → Prop
  | _, [] => True
  | tabs, u :: rest => s.EntryHomes w tabs u ∧ StackHomes w s (tabsAfter tabs u) rest

theorem SnapHomes.mono {tabs tabs' : NodeId → Prop} (more : ∀ t, tabs t → tabs' t) (later : Onward w s s')
    {snap : Snapshot} (homes : s.SnapHomes w tabs snap) : s'.SnapHomes w tabs' snap :=
  ⟨more _ homes.1, homes.2.1, fun d kind => later.grows _ d (homes.2.2 d kind)⟩

theorem EntryHomes.mono {tabs tabs' : NodeId → Prop} (more : ∀ t, tabs t → tabs' t) (later : Onward w s s')
    {u : Undo} (homes : s.EntryHomes w tabs u) : s'.EntryHomes w tabs' u := by
  cases u with
  | recreate snap => exact SnapHomes.mono more later homes
  | recreateWorkspace snap =>
    exact ⟨homes.1.later later, fun n member => (homes.2 n member).mono (fun _ => id) later⟩
  | _ => trivial

/-- More tabs, or a later state, do not hurt. -/
theorem StackHomes.mono (later : Onward w s s') {stack : List Undo} :
    ∀ {tabs tabs' : NodeId → Prop}, (∀ t, tabs t → tabs' t) → s.StackHomes w tabs stack →
      s'.StackHomes w tabs' stack := by
  induction stack with
  | nil => exact fun _ _ => trivial
  | cons u stack ih =>
    intro tabs tabs' more homes
    refine ⟨homes.1.mono more later, ih (fun t => ?_) homes.2⟩
    cases u with
    | dropWorkspace id => exact fun ⟨tab, other⟩ => ⟨more t tab, other⟩
    | recreateWorkspace snap => exact Or.imp_left (more t)
    | _ => exact more t

/-- Forgetting the oldest entries does not hurt either. -/
theorem StackHomes.take {stack : List Undo} : ∀ {tabs : NodeId → Prop} (k : Nat),
    s.StackHomes w tabs stack → s.StackHomes w tabs (stack.take k) := by
  induction stack with
  | nil => intro tabs k _; cases k <;> trivial
  | cons u stack ih =>
    intro tabs k homes
    cases k with
    | zero => trivial
    | succ k => exact ⟨homes.1, ih k homes.2⟩

/-- Homes, and a stack that finds its tabs. -/
structure Settled (w : World) (defs : Table String Workspace) (s : Server (Graph.ofDocument doc)) : Prop where
  homes : s.Homes w defs Tight
  stack : s.StackHomes w (· ∈ s.graph.workspaces) s.undo

theorem Settles.settled (settles : Settles w defs s s') (settled : s.Settled w defs) : s'.Settled w defs := by
  obtain ⟨homes, later, tabs⟩ := settles settled.homes
  refine ⟨homes, ?_⟩
  rw [later.undo]
  exact settled.stack.mono later.toOnward fun t tab => by rw [tabs]; exact tab

/-- Homes do not depend on the undo stack. -/
theorem OnlyUndo.homes {loose : NodeId → Prop} (only : OnlyUndo s s') (homes : s.Homes w defs loose) :
    s'.Homes w defs loose := by
  rw [only]
  exact ⟨homes.authored, homes.known, homes.once,
    fun t tab => ⟨(homes.tabs t tab).apart, (homes.tabs t tab).written, (homes.tabs t tab).unnamed,
      (homes.tabs t tab).minted⟩,
    homes.rows, homes.kinds, homes.records, homes.home, homes.unplaced, homes.kept⟩

theorem OnlyUndo.onward (only : OnlyUndo s s') : Onward w s s' := by
  rw [only]
  exact ⟨le_rfl, fun _ _ => id, fun _ _ => .inl⟩

/-- A later state is settled if its stack was, for tabs that it has. -/
theorem Later.settled {tabs : NodeId → Prop} (later : Later w s s') (homes : s'.Homes w defs Tight)
    (stack : s.StackHomes w tabs s.undo) (more : ∀ t, tabs t → t ∈ s'.graph.workspaces) :
    s'.Settled w defs := by
  refine ⟨homes, ?_⟩
  rw [later.undo]
  exact stack.mono later.toOnward more

/-- Only entries that leave the tabs alone are run together. -/
theorem tabsAfter_of_coalesces {last : Option Undo} {u : Undo} (run : coalesces last u = true)
    (tabs : NodeId → Prop) : tabsAfter tabs u = tabs := by
  cases u with
  | dropWorkspace id =>
    rcases last with _ | ⟨_⟩ <;> simp [coalesces] at run
  | recreateWorkspace snap =>
    rcases last with _ | ⟨_⟩ <;> simp [coalesces] at run
  | _ => rfl

theorem record_stack {tabs : NodeId → Prop} {u : Undo} (entry : s.EntryHomes w tabs u)
    (stack : s.StackHomes w (tabsAfter tabs u) s.undo) :
    (s.record u).StackHomes w tabs (s.record u).undo := by
  have onward : Onward w s (s.record u) := (record_onlyUndo s u).onward
  have pushed : s.StackHomes w tabs (s.record u).undo := by
    unfold record
    split
    · next run => rwa [tabsAfter_of_coalesces run] at stack
    · exact StackHomes.take undoCap ⟨entry, stack⟩
  exact pushed.mono onward fun _ => id

/-- Recording an entry that finds its tabs and leaves them alone. -/
theorem Settled.record (settled : s.Settled w defs) {u : Undo}
    (entry : s.EntryHomes w (· ∈ s.graph.workspaces) u)
    (same : tabsAfter (· ∈ s.graph.workspaces) u = (· ∈ s.graph.workspaces)) :
    (s.record u).Settled w defs := by
  have tabs : (s.record u).graph.workspaces = s.graph.workspaces := by
    rw [graph, (record_onlyUndo s u).history, graph]
  refine ⟨(record_onlyUndo s u).homes settled.homes, ?_⟩
  rw [tabs]
  exact record_stack entry (by rw [same]; exact settled.stack)

theorem instantiates_eq_some {kind : SnapKind} {d : String} (instantiates : kind.instantiates = some d) :
    kind.isGroup = true ∧ Instancing.groupDefinition kind = d := by
  cases kind with
  | group definition => cases instantiates; exact ⟨rfl, rfl⟩
  | _ => cases instantiates

/-- The snapshot of a node that no expansion placed has its tab. -/
theorem snapshot_homes (homes : s.Homes w defs Tight) {id : NodeId} (authored : s.isDerived id = false)
    {snap : Snapshot} (taken : s.snapshot w h id = some snap) :
    s.SnapHomes w (· ∈ s.graph.workspaces) snap ∧ ∃ rec, s.graph.nodes.lookup id = some rec ∧ snap.ws = rec.ws := by
  unfold snapshot at taken
  split at taken
  · next rec node found projected =>
      cases taken
      obtain ⟨tab, apart⟩ := homes.tab_of_not_derived found authored
      refine ⟨⟨tab, by rw [nodeSnap_id projected]; exact apart, fun d kind => ?_⟩, rec, found, rfl⟩
      have isGroup := instantiates_eq_some kind
      rw [nodeSnap_id projected]
      refine homes.rows id d ?_
      rw [nodeSnap_group projected isGroup.1, isGroup.2]
  · cases taken

/-! ## Commands -/

/-- What a client has to ask for: a new node, if it is no app or one of a known
dependency, on a tab that is there, and a new tab under an id that no group has or will
get.  (A node put into a live instance is refused.) -/
def KeepsHomesApart (w : World) (s : Server (Graph.ofDocument doc)) : Command → Prop
  | .create (.node kind _ ws) => (∀ dep, kind = .app dep → dep < s.graph.available.length) →
      ws ∈ s.graph.workspaces ∨ ws ∈ s.instances
  | .create (.hostMount _ _ ws) => ws ∈ s.graph.workspaces ∨ ws ∈ s.instances
  | .create (.workspace id) => id ∈ s.graph.workspaces ∨ s.FreeTab w id
  | _ => True

/-- Adding a tab under a free id keeps the homes. -/
theorem addTab_homes (homes : s.Homes w defs Tight) (index : Nat) {id : NodeId}
    (free : id ∈ s.graph.workspaces ∨ s.FreeTab w id) :
    (s.perform (.addTab index id)).Homes w defs Tight ∧ Later w s (s.perform (.addTab index id)) ∧
      ∀ t, t ∈ (s.perform (.addTab index id)).graph.workspaces ↔ t ∈ s.graph.workspaces ∨ t = id := by
  have later : Later w s (s.perform (.addTab index id)) := later_of_edit rfl (fun _ _ _ _ _ same => by cases same) rfl rfl
  have nodes : (s.perform (.addTab index id)).graph.nodes = s.graph.nodes := by
    simp only [perform_graph, Edit.apply, Graph.addTab]
    split <;> rfl
  have places : ∀ n, (s.perform (.addTab index id)).graph.placeOf n = s.graph.placeOf n := fun n => by
    rw [Canvas.placeOf, nodes, Canvas.placeOf]
  have rows : ∀ n, (s.perform (.addTab index id)).graph.definitionOf n = s.graph.definitionOf n := by
    intro n
    simp only [perform_graph, Edit.apply, Graph.addTab]
    split <;> rfl
  have tabs : ∀ t, t ∈ (s.perform (.addTab index id)).graph.workspaces ↔ t ∈ s.graph.workspaces ∨ t = id := by
    intro t
    simp only [perform_graph, Edit.apply, Graph.addTab]
    split
    · next present =>
        constructor
        · exact .inl
        · rintro (old | rfl)
          · exact old
          · exact present
    · rw [List.mem_insertIdx (Nat.min_le_right ..)]
      exact or_comm
  refine ⟨homes.carry later rfl ?_ ?_ ?_ ?_ (fun i rec => .inl) ?_ (fun u => .inl) (fun u => .inl), later, tabs⟩
  · exact homes.once_of_edit rfl fun _ _ _ _ _ same => by cases same
  · intro t tab
    rcases (tabs t).1 tab with old | rfl
    · exact .inl old
    · exact free.imp_right fun free => free.later later.toOnward
  · exact fun i d row => .inl ((rows i).symm.trans row)
  · exact fun n ws place => .inl ((places n).symm.trans place)
  · intro n kind ws place tight
    refine .inl ⟨(places n).symm.trans place, tight, fun home => ?_⟩
    rcases home with ⟨tab, apart⟩ | held
    · exact .inl ⟨(tabs ws).2 (.inl tab), apart⟩
    · exact .inr held

/-- Naming a tab moves nothing. -/
theorem nameTab_settles (id : NodeId) (name : String) : Settles w defs s (s.perform (.nameTab id name)) := by
  intro homes
  have later : Later w s (s.perform (.nameTab id name)) := later_of_edit rfl (fun _ _ _ _ _ same => by cases same) rfl rfl
  refine ⟨homes.carry later rfl ?_ (fun t => .inl) (fun i d => .inl) (fun n ws => .inl) (fun i rec => .inl) ?_
    (fun u => .inl) (fun u => .inl), later, rfl⟩
  · exact homes.once_of_edit rfl fun _ _ _ _ _ same => by cases same
  · exact fun n kind ws place tight => .inl ⟨place, tight, fun home => home⟩

theorem recreate_settles (distinct : Distinct w doc defs) {snap : Snapshot}
    (found : s.SnapHomes w (· ∈ s.graph.workspaces) snap) : Settles w defs s (s.recreate w h snap) := by
  unfold recreate
  have restored := materialize_settles_tab h distinct found.1 found.2.1
    (fun d kind => .inl (found.2.2 d kind)) snap.fileData
  have rewired : ∀ s : Server (Graph.ofDocument doc),
      Becomes (WireEdit False) s (s.rewire w h snap.wires) := fun s => rewire_becomes w h s snap.wires
  have lined := (restored.trans (rewired _).settles).trans
    (settles_foldl snap.boundary fun s line _ => setBoundaryWire_settles h s line true)
  dsimp only
  split
  · exact lined.trans (expandGroup_settles h distinct _ _ _)
  · exact lined

/-- Bringing a tab back brings its nodes home. -/
theorem recreateWorkspace_homes (distinct : Distinct w doc defs) (homes : s.Homes w defs Tight)
    {snap : WsSnapshot} (free : s.FreeTab w snap.id)
    (nodes : ∀ n ∈ snap.nodes, s.SnapHomes w (· = snap.id) n) :
    (s.recreateWorkspace w h snap).Homes w defs Tight ∧ Later w s (s.recreateWorkspace w h snap) ∧
      ∀ t, t ∈ s.graph.workspaces ∨ t = snap.id → t ∈ (s.recreateWorkspace w h snap).graph.workspaces := by
  obtain ⟨homes₁, later₁, tabs₁⟩ := addTab_homes homes snap.index (.inr free)
  -- Once the tab is there, named or not, everything else settles.
  have refilled : ∀ s₂ : Server (Graph.ofDocument doc), Later w s s₂ →
      (∀ t, t ∈ s.graph.workspaces ∨ t = snap.id → t ∈ s₂.graph.workspaces) →
      Settles w defs s₂ (snap.nodes.foldl (fun s n =>
        if n.node.kind.isGroup then s.expandGroup w h n.ws n.node.id else s)
          (snap.nodes.foldl (fun s n => s.rewire w h n.wires)
            (snap.nodes.foldl (fun s n => s.materialize w h n.ws n.node n.fileData) s₂))) := by
    intro s₂ later₂ tabs₂
    have placed : Settles w defs s₂
        (snap.nodes.foldl (fun s n => s.materialize w h n.ws n.node n.fileData) s₂) := by
      refine settles_loop snap.nodes fun s' later' tabs' _ n member => ?_
      obtain ⟨here, apart, named⟩ := nodes n member
      refine materialize_settles_tab h distinct ?_ apart (fun d kind => .inl ?_) n.fileData
      · rw [tabs']
        exact tabs₂ n.ws (.inr here)
      · exact later'.grows _ d (later₂.grows _ d (named d kind))
    have wired : ∀ s : Server (Graph.ofDocument doc),
        Becomes (WireEdit False) s (snap.nodes.foldl (fun s n => s.rewire w h n.wires) s) :=
      fun s => becomes_foldl snap.nodes fun s n _ => rewire_becomes w h s n.wires
    refine (placed.trans (wired _).settles).trans (settles_foldl snap.nodes fun s n _ => ?_)
    split
    · exact expandGroup_settles h distinct s n.ws n.node.id
    · exact .refl s
  unfold recreateWorkspace
  cases snap.name with
  | none =>
    obtain ⟨homes₂, later₂, tabs₂⟩ := refilled _ later₁ (fun t => (tabs₁ t).2) homes₁
    exact ⟨homes₂, later₁.trans later₂, fun t tab => by rw [tabs₂]; exact (tabs₁ t).2 tab⟩
  | some name =>
    obtain ⟨homes₂, later₂, tabs₂⟩ := nameTab_settles snap.id name homes₁
    have later := later₁.trans later₂
    have tabs : ∀ t, t ∈ s.graph.workspaces ∨ t = snap.id → t ∈ ((s.perform (.addTab snap.index
        snap.id)).perform (.nameTab snap.id name)).graph.workspaces := fun t tab => by
      rw [tabs₂]
      exact (tabs₁ t).2 tab
    obtain ⟨homes₃, later₃, tabs₃⟩ := refilled _ later tabs homes₂
    exact ⟨homes₃, later.trans later₃, fun t tab => by rw [tabs₃]; exact tabs t tab⟩

/-- Undoing the newest entry leaves a settled state. -/
theorem applyUndo_settled (distinct : Distinct w doc defs) {u : Undo} (homes : s.Homes w defs Tight)
    (entry : s.EntryHomes w (· ∈ s.graph.workspaces) u)
    (stack : s.StackHomes w (tabsAfter (· ∈ s.graph.workspaces) u) s.undo) :
    (s.applyUndo w h u).Settled w defs := by
  -- Most entries leave the tabs alone.
  have plain : ∀ s', Settles w defs s s' →
      s.StackHomes w (· ∈ s.graph.workspaces) s.undo → s'.Settled w defs :=
    fun s' settles stack => settles.settled ⟨homes, stack⟩
  have wires : ∀ s', Becomes (WireEdit False) s s' →
      s.StackHomes w (· ∈ s.graph.workspaces) s.undo → s'.Settled w defs :=
    fun s' became stack => plain s' became.settles stack
  have update : ∀ s' id, Becomes (NodeEdit id none) s s' →
      s.StackHomes w (· ∈ s.graph.workspaces) s.undo → s'.Settled w defs :=
    fun s' id became stack => plain s' (became.settles_update distinct) stack
  cases u with
  | pos id pos => exact update _ id (update_becomes s fun _ same => by cases same) stack
  | size id size => exact update _ id (update_becomes s fun _ same => by cases same) stack
  | text id text => exact update _ id (update_becomes s fun _ same => by cases same) stack
  | args id args =>
    simp only [applyUndo]
    split
    · exact update _ id (setNodeArgs_becomes s _) stack
    · exact ⟨homes, stack⟩
  | port id port =>
    simp only [applyUndo]
    split
    · exact update _ id (changePort_becomes s _) stack
    · exact ⟨homes, stack⟩
  | wire a b =>
    simp only [applyUndo]
    split
    · exact wires _ (connectToggle_becomes w h s False.elim) stack
    · exact ⟨homes, stack⟩
  | rewireUnique src newDst oldDst =>
    refine wires _ ?_ stack
    simp only [applyUndo]
    have parted : Becomes (WireEdit False) s
        (if s.nodeExists src && s.nodeExists newDst && s.graph.wired src newDst
          then s.connectToggle w h src newDst else s) := by
      split
      · exact connectToggle_becomes w h s False.elim
      · exact .refl s
    cases oldDst with
    | none => exact parted
    | some old =>
      refine parted.trans ?_
      dsimp only
      generalize (if s.nodeExists src && s.nodeExists newDst && s.graph.wired src newDst
        then s.connectToggle w h src newDst else s) = s'
      split
      · exact connectToggle_becomes w h s' False.elim
      · exact .refl s'
  | token id old =>
    simp only [applyUndo]
    split
    · refine update _ id ⟨.perform .refl ⟨rfl, fun grp => ?_⟩, rfl, le_rfl⟩ stack
      cases old <;> intro same <;> cases same
    · exact ⟨homes, stack⟩
  | boundary line wired => exact plain _ (setBoundaryWire_settles h s line wired) stack
  | uncreate ids =>
    refine plain _ (settles_foldl ids fun s id _ => ?_) stack
    split
    · exact removeAny_settles h distinct s id
    · exact .refl s
  | recreate snap => exact plain _ (recreate_settles h distinct entry) stack
  | dropWorkspace id =>
    obtain ⟨homes', later, tabs⟩ := removeWorkspace_homes h distinct homes id
    exact later.settled homes' stack fun t kept => tabs t kept.1 kept.2
  | recreateWorkspace snap =>
    obtain ⟨homes', later, tabs⟩ := recreateWorkspace_homes h distinct homes entry.1 entry.2
    exact later.settled homes' stack tabs

/-- A command that is not refused is about nodes that no expansion placed. -/
theorem not_derived_of_inside {id : NodeId} (accepted : s.inside id = none) : s.isDerived id = false := by
  unfold inside at accepted
  split at accepted
  · cases accepted
  · next authored => simpa using authored

/-- What is recorded before a command, but for one about a tab, leaves the state
settled. -/
theorem recordBefore_settled (settled : s.Settled w defs) {cmd : Command}
    (accepted : s.refuseStructuralEdit cmd = none) (notCreate : ∀ id, cmd ≠ .create (.workspace id))
    (notDelete : ∀ id, cmd ≠ .delete (.workspace id)) : (s.recordBefore w h cmd).Settled w defs := by
  unfold recordBefore
  split
  · split
    · exact settled
    · split <;> exact settled.record trivial rfl
  · exact absurd rfl (notCreate _)
  · extract_lets rec? s₁ s₂ s₃ s₄
    have moved : s₁.Settled w defs := by
      dsimp only [s₁]
      split
      · exact settled.record trivial rfl
      · exact settled
    have sized : s₂.Settled w defs := by
      dsimp only [s₂]
      split
      · exact moved.record trivial rfl
      · exact moved
    have args : s₃.Settled w defs := by
      dsimp only [s₃]
      split
      · exact sized.record trivial rfl
      · exact sized
    have port : s₄.Settled w defs := by
      dsimp only [s₄]
      split
      · exact args.record trivial rfl
      · exact args
    split
    · exact port.record trivial rfl
    · exact port
  · next id =>
      split
      · next snap taken =>
          have authored := not_derived_of_inside (show s.inside id = none from accepted)
          exact settled.record (snapshot_homes h settled.homes authored taken).1 rfl
      · exact settled
  · split
    · exact settled.record trivial rfl
    · exact settled
  · exact absurd rfl (notDelete _)
  · split
    · exact settled.record trivial rfl
    · exact settled
  · exact settled

/-- Deleting a tab: its snapshot is recorded, and finds the tab when it is undone. -/
theorem deleteWorkspace_settled (distinct : Distinct w doc defs) (settled : s.Settled w defs) (id : NodeId) :
    ((s.recordBefore w h (.delete (.workspace id))).removeWorkspace w h id).Settled w defs := by
  simp only [recordBefore]
  split
  · next asked =>
      have index : ∃ i, s.graph.workspaces.findIdx? (fun t => t = id) = some i := by
        rw [← Option.isSome_iff_exists, List.findIdx?_isSome, List.any_eq_true]
        exact ⟨id, asked.2, by simp⟩
      obtain ⟨i, index⟩ := index
      simp only [snapshotWorkspace, index, Option.map_some]
      generalize takenIs : (WsSnapshot.mk id i (s.graph.workspaceNames.lookup id)
        ((h.ids (s.graph.nodes.keys.filter fun n =>
          (s.graph.nodes.lookup n).any fun rec => rec.ws = id)).filterMap (s.snapshot w h))) = snap
      have snapId : snap.id = id := by rw [← takenIs]
      have entry : s.EntryHomes w (fun t => t ∈ s.graph.workspaces ∧ t ≠ id) (.recreateWorkspace snap) := by
        refine ⟨by rw [snapId]; exact settled.homes.tabs id asked.2, fun n member => ?_⟩
        rw [← takenIs] at member
        obtain ⟨m, listed, taken⟩ := List.mem_filterMap.1 member
        obtain ⟨_, onTab⟩ := List.mem_filter.1 ((h.ids_perm _).mem_iff.1 listed)
        obtain ⟨rec, found, ws⟩ := (Option.any_eq_true _ _).1 onTab
        have authored : s.isDerived m = false := by
          simp only [isDerived, found, decide_eq_false_iff_not]
          rw [of_decide_eq_true ws]
          exact settled.homes.tab_not_instance asked.2
        obtain ⟨⟨_, apart, named⟩, rec', found', wsIs⟩ := snapshot_homes h settled.homes authored taken
        rw [found] at found'
        cases found'
        exact ⟨by rw [wsIs, snapId]; exact of_decide_eq_true ws, apart, named⟩
      have stack : s.StackHomes w (tabsAfter (fun t => t ∈ s.graph.workspaces ∧ t ≠ id)
          (.recreateWorkspace snap)) s.undo := by
        refine settled.stack.mono (Later.refl s).toOnward fun t tab => ?_
        by_cases same : t = id
        · exact .inr (same.trans snapId.symm)
        · exact .inl ⟨tab, same⟩
      have recorded := record_stack entry stack
      have homes := (record_onlyUndo s (.recreateWorkspace snap)).homes settled.homes
      have tabs : (s.record (.recreateWorkspace snap)).graph.workspaces = s.graph.workspaces := by
        rw [graph, (record_onlyUndo s _).history, graph]
      obtain ⟨homes', later, others⟩ := removeWorkspace_homes h distinct homes id
      exact later.settled homes' recorded fun t ⟨tab, other⟩ => others t (by rw [tabs]; exact tab) other
  · next refused =>
      unfold removeWorkspace
      rw [if_pos]
      · exact settled
      · simp only [Bool.or_eq_true, decide_eq_true_eq]
        by_contra both
        simp only [not_or, not_le, not_not] at both
        exact refused ⟨both.1, both.2⟩

/-- Creating a tab: its removal is recorded, for when the others are the tabs again. -/
theorem createWorkspace_settled (settled : s.Settled w defs) {id : NodeId}
    (free : id ∈ s.graph.workspaces ∨ s.FreeTab w id) (index : Nat) :
    ((s.recordBefore w h (.create (.workspace id))).perform (.addTab index id)).Settled w defs := by
  simp only [recordBefore]
  split
  · next present =>
      obtain ⟨homes, later, tabs⟩ := addTab_homes settled.homes index free
      exact later.settled homes settled.stack fun t tab => (tabs t).2 (.inl tab)
  · next absent =>
      have entry : s.EntryHomes w (fun t => t ∈ s.graph.workspaces ∨ t = id) (.dropWorkspace id) := trivial
      have stack : s.StackHomes w (tabsAfter (fun t => t ∈ s.graph.workspaces ∨ t = id) (.dropWorkspace id))
          s.undo := by
        refine settled.stack.mono (Later.refl s).toOnward fun t tab => ⟨.inl tab, ?_⟩
        rintro rfl
        exact absent tab
      have recorded := record_stack entry stack
      have only := record_onlyUndo s (.dropWorkspace id)
      have tabs : (s.record (.dropWorkspace id)).graph.workspaces = s.graph.workspaces := by
        rw [graph, only.history, graph]
      obtain ⟨homes, later, added⟩ := addTab_homes (only.homes settled.homes) index
        (.inr ((free.resolve_left absent).later only.onward))
      refine later.settled homes recorded fun t tab => (added t).2 ?_
      rw [tabs]
      exact tab

/-- The commands whose inverse is recorded beforehand. -/
theorem command_settled (distinct : Distinct w doc defs) (settled : s.Settled w defs) {cmd : Command}
    (accepted : s.refuseStructuralEdit cmd = none) (asked : s.KeepsHomesApart w cmd)
    (notNode : ∀ kind pos ws, cmd = .create (.node kind pos ws) → False)
    (notMount : ∀ path pos ws, cmd = .create (.hostMount path pos ws) → False)
    (notDuplicate : ∀ id, cmd = .duplicate id → False)
    (notLine : ∀ line, cmd = .create (.boundary line) → False)
    (notUnline : ∀ line, cmd = .delete (.boundary line) → False) :
    ((s.recordBefore w h cmd).dispatch w h cmd).Settled w defs := by
  by_cases create : ∃ id, cmd = .create (.workspace id)
  · obtain ⟨id, rfl⟩ := create
    exact createWorkspace_settled h settled asked _
  by_cases delete : ∃ id, cmd = .delete (.workspace id)
  · obtain ⟨id, rfl⟩ := delete
    exact deleteWorkspace_settled h distinct settled id
  have recorded := recordBefore_settled h settled accepted (fun id same => create ⟨id, same⟩)
    fun id same => delete ⟨id, same⟩
  generalize s.recordBefore w h cmd = s₁ at recorded ⊢
  have wires : ∀ s', Becomes (WireEdit False) s₁ s' → s'.Settled w defs :=
    fun s' became => became.settles.settled recorded
  have update : ∀ s' id, Becomes (NodeEdit id none) s₁ s' → s'.Settled w defs :=
    fun s' id became => (became.settles_update distinct).settled recorded
  unfold dispatch
  split
  · exact (notNode _ _ _ rfl).elim
  · exact (notMount _ _ _ rfl).elim
  · split
    · exact recorded
    · exact wires _ (connectToggle_becomes w h s₁ nofun)
  · exact absurd ⟨_, rfl⟩ create
  · exact (notLine _ rfl).elim
  · exact update _ _ (updateNode_becomes w h s₁ _)
  · exact (notUnline _ rfl).elim
  · exact (removeAny_settles h distinct s₁ _).settled recorded
  · exact wires _ (unwireRel_becomes w h s₁ ..)
  · exact absurd ⟨_, rfl⟩ delete
  · exact wires _ (setMount_becomes w h s₁ ..)
  · exact wires _ (setMidiChannel_becomes s₁ ..)
  · exact update _ _ (setMulticastConfig_becomes h s₁ _)
  · exact wires _ (setServePort_becomes s₁ ..)
  · exact update _ _ (setNodeToken_becomes w s₁ _)
  · exact wires _ ⟨.refl, rfl, le_rfl⟩
  · exact recorded
  · exact (notDuplicate _ rfl).elim
  · exact wires _ ⟨.refl, rfl, le_rfl⟩
  · split
    · exact recorded
    · next u rest stackIs =>
        have only : OnlyUndo s₁ { s₁ with undo := rest } := rfl
        have stack := recorded.stack
        rw [stackIs] at stack
        exact applyUndo_settled h distinct (only.homes recorded.homes)
          (stack.1.mono (fun _ => id) only.onward) (stack.2.mono only.onward fun _ => id)

/-- What is recorded after a command, if anything, leaves the state settled. -/
theorem Settled.record_if (settled : s.Settled w defs) (test : Prop) [Decidable test] {u : Undo}
    (entry : s.EntryHomes w (· ∈ s.graph.workspaces) u)
    (same : tabsAfter (· ∈ s.graph.workspaces) u = (· ∈ s.graph.workspaces)) :
    (if test then s else s.record u).Settled w defs := by
  split
  · exact settled
  · exact settled.record entry same

/-- A node created on a tab settles. -/
theorem created_settled (distinct : Distinct w doc defs) (settled : s.Settled w defs) {ws : NodeId}
    (tab : ws ∈ s.graph.workspaces)
    (became : Becomes (NodeEdit (w.mint s.minted) (some ⟨ws, none⟩)) s s') : s'.Settled w defs :=
  (became.settles_plain distinct (.inl ⟨tab, distinct.mintedApart s.minted⟩)).settled settled

/-- **One command.** A command that keeps homes apart leaves a settled state. -/
theorem apply_settled (distinct : Distinct w doc defs) (settled : s.Settled w defs) {cmd : Command}
    (asked : s.KeepsHomesApart w cmd) : (s.apply w h cmd).Settled w defs := by
  unfold apply
  split
  · exact settled
  · next accepted =>
      rw [Option.not_isSome_iff_eq_none] at accepted
      -- A tab to put a node on, once the command is not refused.
      have onTab : ∀ ws, (ws ∈ s.graph.workspaces ∨ ws ∈ s.instances) →
          (if ws ∈ s.instances then
            some s!"{NodeId.toText ws} is an instance; add the node to its definition instead"
          else none) = none → ws ∈ s.graph.workspaces := by
        intro ws asked accepted
        split at accepted
        · cases accepted
        · next outside => exact asked.resolve_right outside
      have lined : ∀ s' : Server (Graph.ofDocument doc), Settles w defs s s' → ∀ (test : Prop) [Decidable test]
          (line : BoundaryWire) (before : Bool),
          (if ¬test then s'.record (.boundary line before) else s').Settled w defs := by
        intro s' settles test _ line before
        rw [ite_not]
        exact (settles.settled settled).record_if test trivial rfl
      split
      · next kind pos ws =>
          refine Settled.record_if ?_ _ trivial rfl
          by_cases known : ∀ dep, kind = .app dep → dep < s.graph.available.length
          · exact created_settled distinct settled (onTab ws (asked known) accepted)
              (createNode_becomes w h s kind pos ws)
          · push Not at known
            obtain ⟨dep, rfl, unknown⟩ := known
            change (s.createNode w h (.app dep) pos ws).Settled w defs
            rw [createNode, List.getElem?_eq_none unknown]
            exact settled
      · next path pos ws =>
          exact (created_settled distinct settled (onTab ws asked accepted)
            (addHostMount_becomes w h s path pos ws)).record_if _ trivial rfl
      · next id =>
          have authored := not_derived_of_inside (show s.inside id = none from accepted)
          exact ((duplicate_settles h distinct authored).settled settled).record_if _ trivial rfl
      · next line => exact lined _ (setBoundaryWire_settles h s line true) _ _ _
      · next line => exact lined _ (setBoundaryWire_settles h s line false) _ _ _
      · next cmd _ _ _ _ _ =>
          exact command_settled h distinct settled accepted asked ‹_› ‹_› ‹_› ‹_› ‹_›

theorem setNodeAuth_settles (base : Bytes) : Settles w defs s (s.setNodeAuth w h base) := by
  intro homes
  have later : Later w s (s.setNodeAuth w h base) := later_of_edit rfl (fun _ _ _ _ _ same => by cases same) rfl rfl
  refine ⟨homes.carry later rfl ?_ (fun t => .inl) (fun i d => .inl) (fun n ws => .inl) (fun i rec => .inl) ?_
    (fun u => .inl) (fun u => .inl), later, rfl⟩
  · exact homes.once_of_edit rfl fun _ _ _ _ _ same => by cases same
  · exact fun n kind ws place tight => .inl ⟨place, tight, fun home => home⟩

theorem steps_settled (distinct : Distinct w doc defs) {steps : List Step} :
    ∀ {s : Server (Graph.ofDocument doc)}, s.Settled w defs → s.Asked w (KeepsHomesApart w) steps →
      (steps.foldl (step w) s).Settled w defs := by
  induction steps with
  | nil => exact fun settled _ => settled
  | cons st steps ih =>
    intro s settled asked
    cases st with
    | command h cmd => exact ih (apply_settled h distinct settled asked.1) asked.2
    | tick h =>
      have became : Becomes (WireEdit False) s (s.tick w h) := tick_becomes w h s
      exact ih (became.settles.settled settled) asked
    | auth h base => exact ih ((setNodeAuth_settles h base).settled settled) asked

/-! ## Loading -/

theorem fresh_homes (distinct : Distinct w doc defs) : (fresh doc).Homes w defs Tight where
  authored := rfl
  known := fun id d ⟨_, _, _, _, member, _⟩ => nomatch member
  once := fun id d d' ⟨_, _, _, _, member, _⟩ => nomatch member
  tabs := by
    intro t tab
    obtain ⟨ws, member, rfl⟩ := List.mem_map.1 tab
    have written := List.mem_of_mem_filter member
    exact ⟨distinct.tabIds ws written, distinct.groupsApart ws written,
      fun d ⟨_, _, _, _, edit, _⟩ => (List.not_mem_nil edit).elim,
      fun n _ => (distinct.mintedNew n ws written).1⟩
  rows := nofun
  kinds := nofun
  records := nofun
  home := nofun
  unplaced := nofun
  kept := nofun

/-- A group always comes up. -/
theorem materialize_group_exists {ws : NodeId} {snap : NodeSnap} (isGroup : snap.kind.isGroup = true)
    (s : Server (Graph.ofDocument doc)) : (s.materialize w h ws snap []).nodeExists snap.id = true := by
  rw [nodeExists_iff, Graph.mem_nodes_iff_placeOf]
  obtain ⟨id, pos, size, pos3d, panel3d, kind⟩ := snap
  cases kind with
  | group definition name inWires outWires =>
    refine ⟨(.group, ws), ?_⟩
    have placed := Graph.place_placeOf s.graph id ws pos size
      (.group { definition, name, inWires, outWires }) id
    rw [if_pos rfl] at placed
    cases pos3d <;> cases panel3d <;> exact placed
  | _ => cases isGroup

/-- One node of a tab: it comes up at home, or is kept aside. -/
theorem restore_settles (distinct : Distinct w doc defs) {saved : Workspace} (written : saved ∈ doc.workspaces)
    (isTab : saved.tab = true) (tab : saved.id ∈ s.graph.workspaces) {snap : NodeSnap}
    (member : snap ∈ saved.nodes) :
    Settles w defs s
      (if (s.materialize w h saved.id snap []).nodeExists snap.id then s.materialize w h saved.id snap []
        else { s.materialize w h saved.id snap [] with
          unplaced := (s.materialize w h saved.id snap []).unplaced ++ [(saved.id, snap)] }) := by
  have restored : Settles w defs s (s.materialize w h saved.id snap []) := by
    refine materialize_settles_tab h distinct tab (distinct.nodeIds saved written snap member) ?_ []
    intro d instantiates
    obtain ⟨isGroup, same⟩ := instantiates_eq_some instantiates
    exact .inr ⟨saved, written, isTab, snap, List.mem_filter.2 ⟨member, isGroup⟩, rfl, same⟩
  split
  · exact restored
  · next missing =>
      refine restored.trans fun homes => ?_
      have plain : snap.kind.isGroup = false := by
        by_contra isGroup
        rw [Bool.not_eq_false] at isGroup
        exact missing (materialize_group_exists h isGroup s)
      generalize s.materialize w h saved.id snap [] = s₁ at homes ⊢
      have later : Later w s₁ { s₁ with unplaced := s₁.unplaced ++ [(saved.id, snap)] } :=
        ⟨⟨le_rfl, fun _ _ old => old, fun _ _ => .inl⟩, rfl⟩
      refine ⟨homes.carry later rfl homes.once (fun t => .inl) (fun i d => .inl) (fun n ws => .inl)
        (fun i rec => .inl) (fun n kind ws place tight => .inl ⟨place, tight, fun home => home⟩) ?_
        (fun u => .inl), later, rfl⟩
      intro u member'
      rcases List.mem_append.1 member' with old | new
      · exact .inl old
      · rw [List.mem_singleton.1 new]
        exact .inr ⟨distinct.nodeIds saved written snap member, plain⟩

theorem mem_wiresOf {saved : Workspace} {r : WireRel} {a b : NodeId} :
    (r, a, b) ∈ wiresOf saved ↔ (a, b) ∈ saved.links r := by
  simp [wiresOf]

theorem instantiate_settles (distinct : Distinct w doc defs) {saved : Workspace}
    (written : saved ∈ doc.workspaces) (isTab : saved.tab = true) (tab : saved.id ∈ s.graph.workspaces) :
    Settles w defs s (s.instantiate w h saved) := by
  have placed : Settles w defs s (saved.nodes.foldl (fun s snap =>
      let s := s.materialize w h saved.id snap []
      if s.nodeExists snap.id then s else { s with unplaced := s.unplaced ++ [(saved.id, snap)] }) s) := by
    refine settles_loop saved.nodes fun s' _ tabs _ snap member => ?_
    exact restore_settles h distinct written isTab (by rw [tabs]; exact tab) member
  have expanded : ∀ s : Server (Graph.ofDocument doc), Settles w defs s (saved.nodes.foldl (fun s snap =>
      if snap.kind.isGroup then s.expandGroup w h saved.id snap.id else s) s) := by
    intro s
    refine settles_foldl _ fun s snap _ => ?_
    split
    · exact expandGroup_settles h distinct s _ _
    · exact .refl s
  unfold instantiate
  refine placed.trans ?_
  dsimp only
  generalize saved.nodes.foldl (fun s snap =>
    if (s.materialize w h saved.id snap []).nodeExists snap.id then s.materialize w h saved.id snap []
    else { s.materialize w h saved.id snap [] with
      unplaced := (s.materialize w h saved.id snap []).unplaced ++ [(saved.id, snap)] }) s = s₁
  generalize lostIs : ((wiresOf saved).filter fun wire =>
    wire.2.1 ∈ (s₁.unplaced.filter fun u => u.1 = saved.id).map (fun u => u.2.id) ||
      wire.2.2 ∈ (s₁.unplaced.filter fun u => u.1 = saved.id).map fun u => u.2.id) = lost
  have kept : Settles w defs s₁
      { s₁ with unplacedWires := s₁.unplacedWires ++ lost.map fun wire => (saved.id, wire) } := by
    intro homes
    have later : Later w s₁
        { s₁ with unplacedWires := s₁.unplacedWires ++ lost.map fun wire => (saved.id, wire) } :=
      ⟨⟨le_rfl, fun _ _ old => old, fun _ _ => .inl⟩, rfl⟩
    refine ⟨homes.carry later rfl homes.once (fun t => .inl) (fun i d => .inl) (fun n ws => .inl)
      (fun i rec => .inl) (fun n kind ws place tight => .inl ⟨place, tight, fun home => home⟩)
      (fun u => .inl) ?_, later, rfl⟩
    intro u member
    rcases List.mem_append.1 member with old | new
    · exact .inl old
    · obtain ⟨⟨r, a, b⟩, wire, rfl⟩ := List.mem_map.1 new
      rw [← lostIs] at wire
      exact .inr (distinct.wireEnds saved written r (a, b) (mem_wiresOf.1 (List.mem_of_mem_filter wire)))
  exact (kept.trans (applyWires_settles h _ saved)).trans (expanded _)

/-- A loaded server is settled. -/
theorem new_settled (distinct : Distinct w doc defs) (loaded : new w h doc = .ok s) : s.Settled w defs := by
  unfold new at loaded
  cases expanded : Instancing.expand w.digests doc with
  | error e => rw [expanded] at loaded; cases loaded
  | ok instances =>
    rw [expanded] at loaded
    cases loaded
    have loads : Settles w defs (fresh doc)
        ((doc.workspaces.filter fun ws => ws.tab).foldl (instantiate w h) (fresh doc)) := by
      refine settles_loop _ fun s' _ tabs _ saved member => ?_
      obtain ⟨written, isTab⟩ := List.mem_filter.1 member
      refine instantiate_settles h distinct written isTab ?_
      rw [tabs]
      exact List.mem_map_of_mem member
    exact loads.settled ⟨fresh_homes distinct, trivial⟩

/-! ## Saving -/

/-- A live node that an instance's expansion placed. -/
def PlacedByExpansion (s : Server (Graph.ofDocument doc)) (n : NodeId) : Prop :=
  n ∈ s.graph.nodes ∧ ∃ i rec, s.instances.lookup i = some rec ∧ n ∈ rec.nodes

theorem Homes.not_placed_of_apart (homes : s.Homes w defs Tight) {n : NodeId}
    (apart : ¬Derived w.digests n) : ¬s.PlacedByExpansion n := by
  rintro ⟨_, i, rec, found, listed⟩
  exact apart (homes.listed_derived found listed)

/-- The source's own test for such a node is right. -/
theorem Homes.isDerived_of_placed (homes : s.Homes w defs Tight) {n : NodeId} (placed : s.PlacedByExpansion n) :
    s.isDerived n = true := by
  obtain ⟨present, i, rec, found, listed⟩ := placed
  by_contra authored
  rw [Bool.not_eq_true] at authored
  obtain ⟨noderec, foundNode⟩ := Table.mem_iff_lookup.1 present
  exact (homes.tab_of_not_derived foundNode authored).2 (homes.listed_derived found listed)

/-- The nodes and wires of a workspace are not those of an expansion. -/
def WritesOwn (s : Server (Graph.ofDocument doc)) (ws : Workspace) : Prop :=
  (∀ n ∈ ws.nodes, ¬s.PlacedByExpansion n.id) ∧
    ∀ r, ∀ l ∈ ws.links r, ¬s.PlacedByExpansion l.1 ∧ ¬s.PlacedByExpansion l.2

/-- A node on a tab has an id of its own. -/
theorem Homes.apart_on_tab (homes : s.Homes w defs Tight) {n ws : NodeId} (tab : ws ∈ s.graph.workspaces)
    (here : (s.graph.nodes.lookup n).any (fun rec => rec.ws = ws) = true) : ¬Derived w.digests n := by
  obtain ⟨rec, found, wsIs⟩ := (Option.any_eq_true _ _).1 here
  have authored : s.isDerived n = false := by
    simp only [isDerived, found, decide_eq_false_iff_not]
    rw [of_decide_eq_true wsIs]
    exact homes.tab_not_instance tab
  exact (homes.tab_of_not_derived found authored).2

theorem saveWorkspace_writesOwn (homes : s.Homes w defs Tight) {ws : NodeId}
    (tab : ws ∈ s.graph.workspaces) : s.WritesOwn (s.saveWorkspace w ws) := by
  constructor
  · intro n member
    rcases List.mem_append.1 member with live | aside
    · obtain ⟨m, listed, projected⟩ := List.mem_filterMap.1 live
      rw [nodeSnap_id projected]
      have onTab := (List.mem_filter.1 ((List.mem_insertionSort _).1 listed)).2
      exact homes.not_placed_of_apart (homes.apart_on_tab tab onTab)
    · obtain ⟨u, kept, rfl⟩ := List.mem_map.1 aside
      exact homes.not_placed_of_apart (homes.unplaced u (List.mem_of_mem_filter kept)).1
  · intro r l member
    -- A live wire starts on the tab, and the save itself tests where it ends.
    have either : l ∈ ((s.graph.links r).filter fun l =>
          ((s.graph.nodes.lookup l.1).any fun rec => rec.ws = ws) && !s.isDerived l.2 &&
            (r, l.1, l.2) ∉ s.derivedWires) ++
        ((s.unplacedWires.filter fun u => u.1 = ws && u.2.1 = r).map fun u => u.2.2) := by
      have wires : l ∈ s.wsWires ws r := member
      unfold wsWires at wires
      dsimp only at wires
      split at wires
      · exact List.mem_of_mem_filter wires
      · exact wires
    rcases List.mem_append.1 either with live | aside
    · obtain ⟨_, tests⟩ := List.mem_filter.1 live
      simp only [Bool.and_eq_true, Bool.not_eq_true'] at tests
      refine ⟨homes.not_placed_of_apart (homes.apart_on_tab tab tests.1.1), fun placed => ?_⟩
      rw [homes.isDerived_of_placed placed] at tests
      exact Bool.noConfusion tests.1.2
    · obtain ⟨u, kept, rfl⟩ := List.mem_map.1 aside
      obtain ⟨source, target⟩ := homes.kept u (List.mem_of_mem_filter kept)
      exact ⟨homes.not_placed_of_apart source, homes.not_placed_of_apart target⟩

/-- The definitions are spliced between the tabs, and nothing else. -/
theorem mem_spliced (authored : List (Nat × Workspace)) : ∀ {tabs : List Workspace} {ws : Workspace},
    ws ∈ authored.foldl (fun workspaces entry =>
      workspaces.insertIdx (min entry.1 workspaces.length) entry.2) tabs →
    ws ∈ tabs ∨ ws ∈ authored.map Prod.snd := by
  induction authored with
  | nil => exact fun member => .inl member
  | cons entry authored ih =>
    intro tabs ws member
    rcases ih member with here | later
    · rw [List.mem_insertIdx (Nat.min_le_right ..)] at here
      rcases here with rfl | old
      · exact .inr (List.mem_cons_self ..)
      · exact .inl old
    · exact .inr (List.mem_cons_of_mem _ later)

theorem save_writesOwn (distinct : Distinct w doc defs) (homes : s.Homes w defs Tight) {ws : Workspace}
    (member : ws ∈ (s.save w).workspaces) : s.WritesOwn ws := by
  rcases mem_spliced s.authored member with tab | definition
  · obtain ⟨id, live, rfl⟩ := List.mem_map.1 (List.mem_of_mem_filter tab)
    exact saveWorkspace_writesOwn homes live
  · rw [homes.authored, fresh_authored] at definition
    have written := List.mem_of_mem_filter definition
    constructor
    · exact fun n inner => homes.not_placed_of_apart (distinct.nodeIds ws written n inner)
    · intro r l wire
      obtain ⟨source, target⟩ := distinct.wireEnds ws written r l wire
      exact ⟨homes.not_placed_of_apart source, homes.not_placed_of_apart target⟩

/-- **Every node has a home, and no derived node reaches the file.** In every session
of a document whose ids are distinct, whose commands keep the homes apart, no id is
both a tab and an instance, every node is on a tab or in a live instance, and a save
writes no node that an expansion placed, and no wire on one. -/
theorem run_homes {steps : List Step} {s₀ s : Server (Graph.ofDocument doc)} (distinct : Distinct w doc defs)
    (loaded : new w h doc = .ok s₀) (asked : s₀.Asked w (KeepsHomesApart w) steps)
    (ran : run w h doc steps = .ok s) :
    (∀ id ∈ s.graph.workspaces, id ∉ s.instances) ∧
    (∀ n rec, s.graph.nodes.lookup n = some rec → rec.ws ∈ s.graph.workspaces ∨ rec.ws ∈ s.instances) ∧
    ∀ ws ∈ (s.save w).workspaces, s.WritesOwn ws := by
  have settled : s.Settled w defs := by
    unfold run at ran
    rw [loaded] at ran
    cases ran
    exact steps_settled distinct (new_settled h distinct loaded) asked
  have homes := settled.homes
  refine ⟨fun id tab => homes.tab_not_instance tab, fun n rec found => ?_,
    fun ws member => save_writesOwn distinct homes member⟩
  have place : s.graph.placeOf n = some (rec.kind, rec.ws) := by rw [Canvas.placeOf, found]; rfl
  rcases homes.home n rec.kind rec.ws place (fun loose => loose) with tab | ⟨inst, live, _⟩
  · exact .inl tab.1
  · exact .inr (Table.mem_of_lookup live)

section Poles

/-- A tab with a note and an instance of a definition that holds two notes. -/
def duoDocument : Document where
  workspaces := [
    { id := 1
      nodes := [
        { id := 20, kind := .group "duo" none [] [] },
        { id := 21, kind := .note "todo" }] },
    { id := 2
      name := some "duo"
      tab := false
      nodes := [{ id := 30, kind := .note "left" }, { id := 31, kind := .note "right" }] }]

/-- The definitions of that document. -/
def duoDefinitions : Table String Workspace :=
  (Instancing.definitions duoDocument).toOption.getD ∅

theorem plain_not_derived {id : Nat} (small : id < 1000) : ¬Derived World.plain.digests id := by
  rintro ⟨i, a, same⟩
  have : 1000 + 2 * Nat.pair i a = id := same
  omega

theorem plain_mint_ne {id : Nat} (small : id < 1000) (n : Nat) : World.plain.mint n ≠ id := by
  intro same
  have : 1001 + 2 * n = id := same
  omega

theorem duoDocument_distinct : Distinct World.plain duoDocument duoDefinitions := by
  have small : ∀ ws ∈ duoDocument.workspaces, ws.id < 1000 ∧ (∀ n ∈ ws.nodes, n.id < 1000) ∧
      (∀ r, ws.links r = []) ∧ ∀ n ∈ ws.groupsIn, n.id = 20 ∧ Instancing.groupDefinition n.kind = "duo" := by
    intro ws member
    simp only [duoDocument, List.mem_cons, List.not_mem_nil, or_false] at member
    rcases member with rfl | rfl
    · exact ⟨by decide, by decide, fun _ => rfl, by decide⟩
    · exact ⟨by decide, by decide, fun _ => rfl, by decide⟩
  have root : ∀ id d, WrittenRoot duoDocument id d → id = 20 ∧ d = "duo" := by
    rintro id d ⟨ws, member, _, n, inner, rfl, rfl⟩
    exact (small ws member).2.2.2 n inner
  refine
    { indexed := by rfl
      derived := ?_
      minted := ?_
      mintedApart := ?_
      mintedNew := fun n ws member => ⟨plain_mint_ne (small ws member).1 n, fun node inner =>
        plain_mint_ne ((small ws member).2.1 node inner) n⟩
      tabIds := fun ws member => plain_not_derived (small ws member).1
      nodeIds := fun ws member node inner => plain_not_derived ((small ws member).2.1 node inner)
      wireEnds := fun ws member r l wire => by simp [(small ws member).2.2.1 r] at wire
      groupsOnce := ?_
      single := fun id d d' here there => (root id d here).2.trans (root id d' there).2.symm
      groupsApart := ?_ }
  · intro i j a b same
    have pairs : Nat.pair i a = Nat.pair j b := by
      have : 1000 + 2 * Nat.pair i a = 1000 + 2 * Nat.pair j b := same
      omega
    exact Nat.pair_eq_pair.1 pairs
  · intro n m same
    have : 1001 + 2 * n = 1001 + 2 * m := same
    omega
  · rintro n ⟨i, a, same⟩
    have : 1000 + 2 * Nat.pair i a = 1001 + 2 * n := same
    omega
  · intro d defn defined
    have rows : duoDefinitions.entries.all (fun row => decide (row.2.groupsIn.map NodeSnap.id).Nodup) = true := by
      decide
    exact of_decide_eq_true (List.all_eq_true.1 rows _ (Table.mem_entries_iff.2 defined))
  · intro ws member d written
    have ids : ∀ ws ∈ duoDocument.workspaces, ws.id ≠ 20 := by
      intro ws member
      simp only [duoDocument, List.mem_cons, List.not_mem_nil, or_false] at member
      rcases member with rfl | rfl <;> decide
    exact ids ws member (root _ d written).1

/-- The decidable part of `KeepsHomesApart` in that world, for small ids. -/
def keepsHomesApartTest (s : Server (Graph.ofDocument doc)) : Command → Bool
  | .create (.node _ _ ws) => ws ∈ s.graph.workspaces
  | .create (.hostMount _ _ ws) => ws ∈ s.graph.workspaces
  | .create (.workspace id) =>
    decide (id < 1000) && (doc.workspaces.all fun ws => ws.nodes.all fun n => n.id ≠ id) &&
      s.history.edits.all fun e =>
        match e with
        | .place n _ _ _ (.group _) => n ≠ id
        | _ => true
  | _ => true

theorem keepsHomesApartTest_sound (s : Server (Graph.ofDocument doc)) (cmd : Command)
    (passed : s.keepsHomesApartTest cmd = true) : s.KeepsHomesApart World.plain cmd := by
  cases cmd with
  | create resource =>
    cases resource with
    | node kind pos ws => exact fun _ => .inl (of_decide_eq_true passed)
    | hostMount path pos ws => exact .inl (of_decide_eq_true passed)
    | workspace id =>
      simp only [keepsHomesApartTest, Bool.and_eq_true, decide_eq_true_eq, List.all_eq_true] at passed
      obtain ⟨⟨small, unwritten⟩, unplaced⟩ := passed
      refine .inr ⟨plain_not_derived small, ?_, ?_, fun n _ => plain_mint_ne small n⟩
      · rintro d ⟨ws, member, _, n, inner, same, _⟩
        exact unwritten ws member n (List.mem_of_mem_filter inner) same
      · rintro d ⟨ws, pos, size, grp, member, _⟩
        simpa using unplaced _ member
    | _ => trivial
  | _ => trivial

/-- A second tab with a note on it, and the group duplicated, deleted and brought
back. -/
def duoSteps : List Step :=
  let h := Host.plain fun _ => none
  [.command h (.create (.workspace 3)), .command h (.create (.node .note (0, 0) 3)),
    .command h (.duplicate 20), .command h (.delete (.node 20)), .command h .undo]

theorem run_homes_duo :
    ∃ s, run .plain (.plain fun _ => none) duoDocument duoSteps = .ok s ∧
      s.graph.workspaces = [1, 3] ∧ s.instances.keys.length = 2 ∧
      (∀ id ∈ s.graph.workspaces, id ∉ s.instances) ∧
      ∀ ws ∈ (s.save .plain).workspaces, s.WritesOwn ws := by
  have seen : (run .plain (.plain fun _ => none) duoDocument duoSteps).toOption.map
      (fun s => (s.graph.workspaces, s.instances.keys.length)) = some ([1, 3], 2) := by
    decide
  have tested : (new .plain (.plain fun _ => none) duoDocument).toOption.map
      (fun s => s.checkAsked .plain keepsHomesApartTest duoSteps) = some true := by
    decide
  obtain ⟨s, ran, seen⟩ := ok_of_observed seen
  obtain ⟨s₀, loaded, passed⟩ := ok_of_observed tested
  have asked := asked_of_check .plain keepsHomesApartTest_sound passed
  obtain ⟨tabs, instances⟩ := Prod.mk.inj seen
  have homes := run_homes _ duoDocument_distinct loaded asked ran
  exact ⟨s, ran, tabs, instances, homes.1, homes.2.2⟩

/-- A client opens a tab under the id of a live instance. -/
theorem tab_takes_instance_id :
    ∃ s, run .plain (.plain fun _ => none) duoDocument
        [.command (.plain fun _ => none) (.create (.workspace 20))] = .ok s ∧
      20 ∈ s.graph.workspaces ∧ 20 ∈ s.instances := by
  have seen : (run .plain (.plain fun _ => none) duoDocument
      [.command (.plain fun _ => none) (.create (.workspace 20))]).toOption.map
        (fun s => (decide (20 ∈ s.graph.workspaces), decide (20 ∈ s.instances))) = some (true, true) := by
    decide
  obtain ⟨s, ran, seen⟩ := ok_of_observed seen
  simp only [Prod.mk.injEq, decide_eq_true_eq] at seen
  exact ⟨s, ran, seen⟩

end Poles

end Server

end Wk
