/-
# Wk.Server.Settling -- each function of the server keeps the homes

One lemma per function that removes nodes, expands a group or edits its lines:
`Settles` says that homes are kept, that the tabs are the same, and what is `Later`.
Forgetting an instance leaves its nodes loose for a moment, until the loop that
follows has removed them; deleting a tab first removes every node on it.
-/
import Wk.Server.Homes

namespace Wk

open Wk.Library
open Wk.Instancing (Derived Apart GroupsOnce Names WrittenRoot stampedIds)

set_option autoImplicit false

namespace Server

variable {doc : Document} {w : World} {defs : Table String Workspace}
  {s s' s'' : Server (Graph.ofDocument doc)}

/-! ## Settling -/

/-- Nothing is loose. -/
def Tight (_ : NodeId) : Prop := False

/-- From `s` to `s'` homes are kept, and the tabs are the same. -/
def Settles (w : World) (defs : Table String Workspace) (s s' : Server (Graph.ofDocument doc)) : Prop :=
  s.Homes w defs Tight →
    s'.Homes w defs Tight ∧ Later w s s' ∧ s'.graph.workspaces = s.graph.workspaces

theorem Settles.refl (s : Server (Graph.ofDocument doc)) : Settles w defs s s :=
  fun homes => ⟨homes, .refl s, rfl⟩

theorem Settles.trans (first : Settles w defs s s') (second : Settles w defs s' s'') :
    Settles w defs s s'' := by
  intro homes
  obtain ⟨homes', later, tabs⟩ := first homes
  obtain ⟨homes'', later', tabs'⟩ := second homes'
  exact ⟨homes'', later.trans later', tabs'.trans tabs⟩

/-- A loop settles if each turn does, in a state later than the first. -/
theorem settles_loop {α : Type} {f : Server (Graph.ofDocument doc) → α → Server (Graph.ofDocument doc)}
    (xs : List α) (turn : ∀ s', Later w s s' → s'.graph.workspaces = s.graph.workspaces →
      s'.Homes w defs Tight → ∀ x ∈ xs, Settles w defs s' (f s' x)) :
    Settles w defs s (xs.foldl f s) := by
  intro homes
  refine List.foldlRecOn (motive := fun s' => s'.Homes w defs Tight ∧ Later w s s' ∧
    s'.graph.workspaces = s.graph.workspaces) xs f ⟨homes, .refl s, rfl⟩ ?_
  intro s' so x member
  obtain ⟨homes', later, tabs⟩ := turn s' so.2.1 so.2.2 so.1 x member so.1
  exact ⟨homes', so.2.1.trans later, tabs.trans so.2.2⟩

theorem settles_foldl {α : Type} {f : Server (Graph.ofDocument doc) → α → Server (Graph.ofDocument doc)}
    (xs : List α) (turn : ∀ s, ∀ x ∈ xs, Settles w defs s (f s x)) : Settles w defs s (xs.foldl f s) :=
  settles_loop xs fun s' _ _ _ x member => turn s' x member

theorem Becomes.settles {strict : Prop} (became : Becomes (WireEdit strict) s s') :
    Settles w defs s s' := by
  intro homes
  refine ⟨homes.wires became, became.later_wires, ?_⟩
  rw [became.toCanvas]

theorem applyWires_settles (h : Host) (s : Server (Graph.ofDocument doc)) (saved : Workspace) :
    Settles w defs s (s.applyWires w h saved).1 :=
  have became : Becomes (WireEdit False) s (s.applyWires w h saved).1 := applyWires_becomes w h s saved
  became.settles

/-- An update settles: it places nothing. -/
theorem Becomes.settles_update (distinct : Distinct w doc defs) {id : NodeId}
    (became : Becomes (NodeEdit id none) s s') : Settles w defs s s' := by
  intro homes
  exact ⟨homes.node distinct became nofun nofun nofun, became.later_node nofun, became.about.tabs⟩

/-- A node that is no group settles where it may live. -/
theorem Becomes.settles_plain (distinct : Distinct w doc defs) {id ws : NodeId}
    (became : Becomes (NodeEdit id (some ⟨ws, none⟩)) s s') (lives : s.Home w id ws) :
    Settles w defs s s' := by
  intro homes
  refine ⟨homes.node distinct became ?_ nofun nofun, became.later_node nofun, became.about.tabs⟩
  rintro _ _ ⟨rfl, rfl⟩
  exact lives

/-! ## Removing -/

variable (h : Host)

/-- Taking one node off the canvas leaves the other nodes, loose or not. -/
theorem Homes.removeLeaf {loose : NodeId → Prop} (homes : s.Homes w defs loose) (id : NodeId) :
    (s.removeLeaf w h id).Homes w defs (fun n => loose n ∧ n ≠ id) ∧ Later w s (s.removeLeaf w h id) ∧
      (s.removeLeaf w h id).graph.workspaces = s.graph.workspaces := by
  have later : Later w s (s.removeLeaf w h id) := later_of_edit rfl (fun _ _ _ _ _ same => by cases same) rfl rfl
  have places : ∀ n, (s.removeLeaf w h id).graph.placeOf n = if n = id then none else s.graph.placeOf n :=
    Graph.remove_placeOf s.graph h.pairs id
  have tabs : (s.removeLeaf w h id).graph.workspaces = s.graph.workspaces := Graph.remove_workspaces ..
  have old : ∀ n place, (s.removeLeaf w h id).graph.placeOf n = some place →
      n ≠ id ∧ s.graph.placeOf n = some place := by
    intro n place here
    rw [places] at here
    split at here
    · cases here
    · next other => exact ⟨other, here⟩
  refine ⟨homes.carry later rfl ?_ ?_ ?_ ?_ ?_ ?_ ?_ ?_, later, tabs⟩
  · exact homes.once_of_edit rfl fun _ _ _ _ _ same => by cases same
  · exact fun t tab => .inl (tabs ▸ tab)
  · exact fun i d row => .inl (Graph.remove_definitionOf _ row)
  · exact fun n ws place => .inl (old n _ place).2
  · exact fun i rec found => .inl found
  · intro n kind ws place tight
    obtain ⟨other, place⟩ := old n _ place
    refine .inl ⟨place, fun isLoose => tight ⟨isLoose, other⟩, fun home => ?_⟩
    unfold Home at home ⊢
    rwa [tabs]
  · exact fun u member => .inl member
  · exact fun u member => .inl member

/-- Removing the nodes of an instance that has been forgotten leaves none loose. -/
theorem removeLoose (distinct : Distinct w doc defs)
    {tearDown : Server (Graph.ofDocument doc) → NodeId → Server (Graph.ofDocument doc)}
    (nodes : List NodeId) : ∀ {s : Server (Graph.ofDocument doc)} {loose : NodeId → Prop},
    s.Homes w defs loose → (∀ n ∈ nodes, Derived w.digests n) →
    let s' := nodes.foldl (removeWith w h tearDown) s
    s'.Homes w defs (fun n => loose n ∧ n ∉ nodes) ∧ Later w s s' ∧
      s'.graph.workspaces = s.graph.workspaces := by
  induction nodes with
  | nil =>
    intro s loose homes _
    exact ⟨homes.loosen fun n isLoose => ⟨isLoose, List.not_mem_nil⟩, .refl s, rfl⟩
  | cons id nodes ih =>
    intro s loose homes derived
    -- A derived node is no group, so nothing but the node goes.
    have one : (s.removeWith w h tearDown id).Homes w defs (fun n => loose n ∧ n ≠ id) ∧
        Later w s (s.removeWith w h tearDown id) ∧
        (s.removeWith w h tearDown id).graph.workspaces = s.graph.workspaces := by
      unfold removeWith
      split
      · next absent =>
          refine ⟨?_, .refl s, rfl⟩
          refine homes.carry (.refl s) rfl homes.once (fun t => .inl) (fun i d => .inl)
            (fun n ws => .inl) (fun i rec => .inl) ?_ (fun u => .inl) (fun u => .inl)
          intro n kind ws place tight
          refine .inl ⟨place, fun isLoose => tight ⟨isLoose, ?_⟩, fun home => home⟩
          rintro rfl
          rw [Graph.kindOf_eq_placeOf, place] at absent
          cases absent
      · next isGroup =>
          exfalso
          rw [Graph.kindOf_eq_placeOf] at isGroup
          obtain ⟨⟨kind, ws⟩, place, same⟩ := Option.map_eq_some_iff.1 isGroup
          cases same
          obtain ⟨d, named⟩ := homes.kinds id ws place
          exact homes.not_derived distinct named (derived id (List.mem_cons_self ..))
      · exact homes.removeLeaf h id
    obtain ⟨homes', later, tabs⟩ := one
    obtain ⟨homes'', later', tabs'⟩ := ih homes' fun n member => derived n (List.mem_cons_of_mem _ member)
    refine ⟨homes''.loosen fun n ⟨⟨isLoose, other⟩, left⟩ => ⟨isLoose, ?_⟩, later.trans later',
      tabs'.trans tabs⟩
    simp [other, left]

/-- Forgetting an instance leaves its nodes loose. -/
theorem Homes.forgetInstance (homes : s.Homes w defs Tight) {id : NodeId} {rec : InstanceRec}
    (found : s.instances.lookup id = some rec) :
    ({ s with instances := s.instances.erase id } : Server (Graph.ofDocument doc)).Homes w defs
      (fun n => n ∈ rec.nodes) := by
  refine homes.carry ⟨⟨le_rfl, fun _ _ old => old, fun _ _ => .inl⟩, rfl⟩ rfl homes.once (fun t => .inl)
    (fun i d => .inl) (fun n ws => .inl) ?_ ?_ (fun u => .inl) (fun u => .inl)
  · intro i rec' found'
    rw [Table.lookup_erase_eq] at found'
    split at found'
    · cases found'
    · exact .inl found'
  · intro n kind ws place tight
    refine .inl ⟨place, fun isLoose => isLoose, fun home => ?_⟩
    rcases home with tab | ⟨rec', found', listed⟩
    · exact .inl tab
    · by_cases same : ws = id
      · subst same
        rw [found] at found'
        cases found'
        exact absurd listed tight
      · refine .inr ⟨rec', ?_, listed⟩
        rw [Table.lookup_erase_eq, if_neg same]
        exact found'

theorem tearDownInstance_settles (distinct : Distinct w doc defs) (fuel : Nat) :
    ∀ (s : Server (Graph.ofDocument doc)) (id : NodeId),
      Settles w defs s (tearDownInstance w h fuel s id) := by
  induction fuel with
  | zero => exact fun s id => .refl s
  | succ fuel ih =>
    intro s id
    have nested : Settles w defs s
        ((s.nestedIn id).foldl (fun s child => tearDownInstance w h fuel s child) s) :=
      settles_foldl _ fun s child _ => ih s child
    unfold tearDownInstance
    refine nested.trans fun homes => ?_
    dsimp only
    generalize (s.nestedIn id).foldl (fun s child => tearDownInstance w h fuel s child) s = s₁ at homes ⊢
    split
    · exact ⟨homes, .refl s₁, rfl⟩
    · next rec found =>
        have forgotten := homes.forgetInstance found
        have unwired : Becomes (WireEdit False) { s₁ with instances := s₁.instances.erase id }
            (rec.wires.foldl (fun s wire => s.unwireRel w h wire.1 wire.2.1 wire.2.2)
              { s₁ with instances := s₁.instances.erase id }) :=
          becomes_foldl _ fun s wire _ => unwireRel_becomes w h s ..
        obtain ⟨homes', later, tabs⟩ := removeLoose h distinct rec.nodes (forgotten.wires unwired)
          fun n listed => homes.listed_derived found listed
        have wiresLater : Later w s₁ (rec.wires.foldl
            (fun s wire => s.unwireRel w h wire.1 wire.2.1 wire.2.2)
              { s₁ with instances := s₁.instances.erase id }) :=
          have erased : Later w s₁ { s₁ with instances := s₁.instances.erase id } :=
            ⟨⟨le_rfl, fun _ _ old => old, fun _ _ => .inl⟩, rfl⟩
          erased.trans unwired.later_wires
        refine ⟨homes'.loosen fun n ⟨listed, left⟩ => left listed, wiresLater.trans later, tabs.trans ?_⟩
        rw [unwired.toCanvas]
        rfl

theorem removeLeaf_settles (id : NodeId) : Settles w defs s (s.removeLeaf w h id) := by
  intro homes
  obtain ⟨homes', rest⟩ := homes.removeLeaf h id
  exact ⟨homes'.loosen fun n isLoose => isLoose.1, rest⟩

theorem removeAny_settles (distinct : Distinct w doc defs) (s : Server (Graph.ofDocument doc)) (id : NodeId) :
    Settles w defs s (s.removeAny w h id) := by
  unfold removeAny removeWith
  split
  · exact .refl s
  · exact (tearDownInstance_settles h distinct _ s id).trans (removeLeaf_settles h id)
  · exact removeLeaf_settles h id

/-- Dropping a tab without nodes keeps the homes. -/
theorem Homes.removeTab {id : NodeId} (homes : s.Homes w defs Tight)
    (empty : ∀ n kind, s.graph.placeOf n ≠ some (kind, id)) :
    (s.perform (.removeTab id)).Homes w defs Tight ∧ Later w s (s.perform (.removeTab id)) ∧
      ∀ t ∈ s.graph.workspaces, t ≠ id → t ∈ (s.perform (.removeTab id)).graph.workspaces := by
  have later : Later w s (s.perform (.removeTab id)) := later_of_edit rfl (fun _ _ _ _ _ same => by cases same) rfl rfl
  have nodes : (s.perform (.removeTab id)).graph.nodes = s.graph.nodes := by
    simp only [perform_graph, Edit.apply, Graph.removeTab]
    split <;> rfl
  have places : ∀ n, (s.perform (.removeTab id)).graph.placeOf n = s.graph.placeOf n := fun n => by
    rw [Canvas.placeOf, nodes, Canvas.placeOf]
  have rows : ∀ n, (s.perform (.removeTab id)).graph.definitionOf n = s.graph.definitionOf n := by
    intro n
    simp only [perform_graph, Edit.apply, Graph.removeTab]
    split <;> rfl
  have fewer : ∀ t ∈ (s.perform (.removeTab id)).graph.workspaces, t ∈ s.graph.workspaces := by
    intro t tab
    simp only [perform_graph, Edit.apply, Graph.removeTab] at tab
    split at tab
    · exact tab
    · exact List.mem_of_mem_filter tab
  have others : ∀ t ∈ s.graph.workspaces, t ≠ id → t ∈ (s.perform (.removeTab id)).graph.workspaces := by
    intro t tab other
    simp only [perform_graph, Edit.apply, Graph.removeTab]
    split
    · exact tab
    · exact List.mem_filter.2 ⟨tab, by simpa using other⟩
  refine ⟨homes.carry later rfl ?_ ?_ ?_ ?_ ?_ ?_ ?_ ?_, later, others⟩
  · exact homes.once_of_edit rfl fun _ _ _ _ _ same => by cases same
  · exact fun t tab => .inl (fewer t tab)
  · exact fun i d row => .inl ((rows i).symm.trans row)
  · exact fun n ws place => .inl ((places n).symm.trans place)
  · exact fun i rec found => .inl found
  · intro n kind ws place tight
    rw [places] at place
    refine .inl ⟨place, tight, fun home => ?_⟩
    rcases home with ⟨tab, apart⟩ | inside
    · refine .inl ⟨others ws tab ?_, apart⟩
      rintro rfl
      exact empty n kind place
    · exact .inr inside
  · exact fun u member => .inl member
  · exact fun u member => .inl member

/-- What a removal takes does not come back with it. -/
theorem gone_of_removes {strict : Prop} {n : NodeId}
    (led : s.history.Leads (Removal strict) s'.history) (gone : s.graph.placeOf n = none) :
    s'.graph.placeOf n = none := by
  refine led.keeps (P := fun g => g.placeOf n = none) (fun g e removal gone => ?_) gone
  rcases removal with wire | ⟨order, id, rfl, _⟩
  · rw [wire.toCanvas]
    exact gone
  · rw [Edit.apply, Graph.remove_placeOf, gone, ite_self]

theorem removeAny_gone (s : Server (Graph.ofDocument doc)) (id : NodeId) :
    (s.removeAny w h id).graph.placeOf id = none := by
  have leaf : ∀ s : Server (Graph.ofDocument doc), (s.removeLeaf w h id).graph.placeOf id = none := by
    intro s
    rw [removeLeaf, perform_graph, Edit.apply, Graph.remove_placeOf, if_pos rfl]
  unfold removeAny removeWith
  split
  · next absent =>
      rw [Graph.kindOf_eq_placeOf, Option.map_eq_none_iff] at absent
      exact absent
  · exact leaf _
  · exact leaf _

/-- Every node on a list of removals is gone at its end. -/
theorem removeAll_gone (ids : List NodeId) : ∀ (s : Server (Graph.ofDocument doc)), ∀ n ∈ ids,
    (ids.foldl (removeAny w h) s).graph.placeOf n = none := by
  have removes : ∀ (ids : List NodeId) (s : Server (Graph.ofDocument doc)),
      s.history.Leads (Removal False) (ids.foldl (removeAny w h) s).history :=
    fun ids s => leads_foldl ids fun s id _ => removeAny_removes w h s id
  induction ids with
  | nil => nofun
  | cons id ids ih =>
    intro s n member
    rcases List.mem_cons.1 member with rfl | later
    · exact gone_of_removes (removes ids (s.removeAny w h n)) (removeAny_gone h s n)
    · exact ih (s.removeAny w h id) n later

/-- Deleting a tab keeps the homes, and every other tab. -/
theorem removeWorkspace_homes (distinct : Distinct w doc defs) (homes : s.Homes w defs Tight) (id : NodeId) :
    (s.removeWorkspace w h id).Homes w defs Tight ∧ Later w s (s.removeWorkspace w h id) ∧
      ∀ t ∈ s.graph.workspaces, t ≠ id → t ∈ (s.removeWorkspace w h id).graph.workspaces := by
  unfold removeWorkspace
  split
  · exact ⟨homes, .refl s, fun t tab _ => tab⟩
  · dsimp only
    obtain ⟨homes', later, tabs⟩ := settles_foldl
      (h.ids (s.graph.nodes.keys.filter fun n => (s.graph.nodes.lookup n).any fun rec => rec.ws = id))
      (fun s n _ => removeAny_settles h distinct s n) homes
    have removes : s.history.Leads (Removal False) ((h.ids (s.graph.nodes.keys.filter fun n =>
        (s.graph.nodes.lookup n).any fun rec => rec.ws = id)).foldl (removeAny w h) s).history :=
      leads_foldl _ fun s n _ => removeAny_removes w h s n
    -- Every node of the tab was a victim, and none comes back.
    have empty : ∀ n kind, ((h.ids (s.graph.nodes.keys.filter fun n =>
        (s.graph.nodes.lookup n).any fun rec => rec.ws = id)).foldl (removeAny w h) s).graph.placeOf n ≠
          some (kind, id) := by
      intro n kind place
      by_cases victim : ∃ kind, s.graph.placeOf n = some (kind, id)
      · obtain ⟨kind', here⟩ := victim
        obtain ⟨rec, found, _, ws⟩ := Graph.placeOf_eq_some.1 here
        have listed : n ∈ h.ids (s.graph.nodes.keys.filter fun n =>
            (s.graph.nodes.lookup n).any fun rec => rec.ws = id) := by
          rw [(h.ids_perm _).mem_iff, List.mem_filter]
          exact ⟨AList.mem_keys.2 (Table.mem_of_lookup found), by simp [found, ws]⟩
        rw [removeAll_gone h _ s n listed] at place
        cases place
      · have elsewhere := removes.keeps (P := fun g => ∀ kind, g.placeOf n ≠ some (kind, id)) ?_
          fun kind here => victim ⟨kind, here⟩
        · exact elsewhere kind place
        · intro g e removal elsewhere kind place
          rcases removal with wire | ⟨order, m, rfl, _⟩
          · rw [wire.toCanvas] at place
            exact elsewhere kind place
          · rw [Edit.apply, Graph.remove_placeOf] at place
            split at place
            · cases place
            · exact elsewhere kind place
    generalize (h.ids (s.graph.nodes.keys.filter fun n =>
      (s.graph.nodes.lookup n).any fun rec => rec.ws = id)).foldl (removeAny w h) s = s₁ at homes' later tabs empty ⊢
    obtain ⟨homes'', later', others⟩ := homes'.removeTab empty
    exact ⟨homes'', later.trans later', fun t tab other => others t (tabs ▸ tab) other⟩

/-! ## Expanding -/

/-- What the server carries of the document is its definitions. -/
theorem fresh_authored : ((fresh doc).authored.map Prod.snd) = doc.workspaces.filter fun ws => !ws.tab := by
  have all : ∀ (l : List Workspace) (k : Nat), ((l.zipIdx k).filterMap fun ws =>
      if ws.1.tab then none else some (ws.2, ws.1)).map Prod.snd = l.filter fun ws => !ws.tab := by
    intro l
    induction l with
    | nil => exact fun _ => rfl
    | cons ws l ih =>
      intro k
      have rest := ih (k + 1)
      by_cases tab : ws.tab = true
      · simp [List.zipIdx_cons, tab, rest]
      · simp only [Bool.not_eq_true] at tab
        simp [List.zipIdx_cons, tab, rest]
  exact all doc.workspaces 0

/-- A group is resolved against the document's own definitions. -/
theorem groupDocument_definitions {loose : NodeId → Prop} (homes : s.Homes w defs loose) (ws id : NodeId) :
    Instancing.definitions (s.groupDocument w ws id) = Instancing.definitions doc := by
  simp only [Instancing.definitions, groupDocument, homes.authored, fresh_authored, List.filter_append,
    List.filter_filter, Bool.and_self]
  simp

/-- Only a group's row is projected to a group. -/
theorem snapKind_group {id : NodeId} {kind : Kind} {k : SnapKind} (projected : s.snapKind w id kind = some k)
    (isGroup : k.isGroup = true) :
    s.graph.definitionOf id = some (Instancing.groupDefinition k) := by
  cases kind with
  | group =>
    obtain ⟨grp, row, rfl⟩ := Option.map_eq_some_iff.1 projected
    rw [Graph.definitionOf, row]
    rfl
  | file =>
    obtain ⟨f, _, rfl⟩ := Option.map_eq_some_iff.1 projected
    cases f <;> cases isGroup
  | boundary =>
    obtain ⟨⟨_, dir, _⟩, _, rfl⟩ := Option.map_eq_some_iff.1 projected
    cases dir <;> cases isGroup
  | app | port | hostService =>
    obtain ⟨_, _, rfl⟩ := Option.map_eq_some_iff.1 projected
    cases isGroup
  | _ =>
    cases projected
    cases isGroup

theorem nodeSnap_id {id : NodeId} {snap : NodeSnap} (projected : s.nodeSnap w id = some snap) :
    snap.id = id := by
  unfold nodeSnap at projected
  split at projected
  · cases projected
  · obtain ⟨kind, _, rfl⟩ := Option.map_eq_some_iff.1 projected
    rfl

theorem nodeSnap_group {id : NodeId} {snap : NodeSnap} (projected : s.nodeSnap w id = some snap)
    (isGroup : snap.kind.isGroup = true) :
    s.graph.definitionOf id = some (Instancing.groupDefinition snap.kind) := by
  unfold nodeSnap at projected
  split at projected
  · cases projected
  · obtain ⟨kind, snapped, rfl⟩ := Option.map_eq_some_iff.1 projected
    exact snapKind_group snapped isGroup

/-- The roots a group is resolved from are groups that are placed. -/
theorem groupDocument_roots {loose : NodeId → Prop} (homes : s.Homes w defs loose) {ws id i : NodeId}
    {d : String} (root : WrittenRoot (s.groupDocument w ws id) i d) : s.history.Named i d := by
  obtain ⟨canvas, member, tab, node, inner, rfl, rfl⟩ := root
  obtain ⟨listed, isGroup⟩ := List.mem_filter.1 inner
  rcases List.mem_append.1 member with authored | own
  · rw [homes.authored, fresh_authored] at authored
    simp [tab] at authored
  · rw [List.mem_singleton.1 own, List.mem_insertionSort, List.mem_append] at listed
    rcases listed with live | aside
    · obtain ⟨n, _, projected⟩ := List.mem_filterMap.1 live
      rw [nodeSnap_id projected]
      exact homes.rows n _ (nodeSnap_group projected isGroup)
    · obtain ⟨u, kept, rfl⟩ := List.mem_map.1 aside
      have plain := (homes.unplaced u (List.mem_of_mem_filter kept)).2
      rw [plain] at isGroup
      cases isGroup

theorem instantiates_of_not_group {kind : SnapKind} (plain : kind.isGroup = false) :
    kind.instantiates = none := by
  cases kind with
  | group => cases plain
  | _ => rfl

/-- Restoring a node that is no group keeps the homes where the node may live. -/
theorem materialize_settles (distinct : Distinct w doc defs) {ws : NodeId} {snap : NodeSnap}
    (plain : snap.kind.isGroup = false) (lives : s.Home w snap.id ws) (data : Bytes) :
    Settles w defs s (s.materialize w h ws snap data) := by
  have became := materialize_becomes w h s ws snap data
  rw [instantiates_of_not_group plain] at became
  exact became.settles_plain distinct lives

theorem setInstanceWires_settles (id : NodeId) (wires : List (WireRel × NodeId × NodeId)) :
    Settles w defs s (s.setInstanceWires id wires) := by
  unfold setInstanceWires
  split
  · next rec found =>
      intro homes
      have later : Later w s { s with instances := s.instances.insert id { rec with wires } } :=
        ⟨⟨le_rfl, fun _ _ old => old, fun _ _ => .inl⟩, rfl⟩
      refine ⟨homes.carry later rfl homes.once (fun t => .inl) (fun i d => .inl) (fun n ws => .inl) ?_ ?_
        (fun u => .inl) (fun u => .inl), later, rfl⟩
      · intro i rec' found'
        rw [Table.lookup_insert_eq] at found'
        split at found'
        · next same =>
            cases found'
            subst same
            exact .inr (homes.records i rec found)
        · exact .inl found'
      · intro n kind ws place tight
        refine .inl ⟨place, tight, fun home => home.imp_right ?_⟩
        rintro ⟨rec', found', listed⟩
        by_cases same : ws = id
        · subst same
          rw [found] at found'
          cases found'
          exact ⟨_, AList.lookup_insert _, listed⟩
        · exact ⟨rec', by rw [Table.lookup_insert_eq, if_neg same]; exact found', listed⟩
  · exact .refl s

/-- The record of an instance, if there was one under its id already, is replaced by
one that lists the same nodes. -/
theorem Homes.recordInstance (distinct : Distinct w doc defs) (homes : s.Homes w defs Tight) {id : NodeId}
    {rec : InstanceRec} (recorded : s.Recorded w defs id rec) :
    ({ s with instances := s.instances.insert id rec } : Server (Graph.ofDocument doc)).Homes w defs Tight := by
  refine homes.carry ⟨⟨le_rfl, fun _ _ old => old, fun _ _ => .inl⟩, rfl⟩ rfl homes.once (fun t => .inl)
    (fun i d => .inl) (fun n ws => .inl) ?_ ?_ (fun u => .inl) (fun u => .inl)
  · intro i rec' found'
    rw [Table.lookup_insert_eq] at found'
    split at found'
    · next same =>
        cases found'
        subst same
        exact .inr recorded
    · exact .inl found'
  · intro n kind ws place tight
    refine .inl ⟨place, tight, fun home => home.imp_right ?_⟩
    rintro ⟨rec', found', listed⟩
    by_cases same : ws = id
    · subst same
      refine ⟨rec, AList.lookup_insert _, ?_⟩
      obtain ⟨names, defn, defined, nodes⟩ := recorded
      obtain ⟨names', defn', defined', nodes'⟩ := homes.records ws rec' found'
      have sameDef := names'.unique distinct.derived distinct.groupsOnce homes.once
        (fun i d named => homes.not_derived distinct named) names
      rw [sameDef, defined] at defined'
      cases defined'
      rw [nodes, ← nodes']
      exact listed
    · exact ⟨rec', by rw [Table.lookup_insert_eq, if_neg same]; exact found', listed⟩

theorem addInstance_settles (distinct : Distinct w doc defs) {inst : Instancing.Instance}
    (names : Names w.digests defs s.history.Named inst.id inst.definition)
    (holds : Instancing.Holds w.digests defs inst) : Settles w defs s (s.addInstance w h inst) := by
  obtain ⟨defn, defined, contentId, nodes, plain⟩ := holds.nodes
  intro homes
  unfold addInstance
  dsimp only
  generalize recordIs : (InstanceRec.mk inst.tab inst.parent inst.definition inst.name
    (inst.content.nodes.map NodeSnap.id) []) = rec
  have recorded : s.Recorded w defs inst.id rec := by
    subst recordIs
    exact ⟨names, defn, defined, nodes⟩
  have homes₁ := homes.recordInstance distinct recorded
  generalize server : ({ s with instances := s.instances.insert inst.id rec } :
    Server (Graph.ofDocument doc)) = s₁ at homes₁ ⊢
  have later₁ : Later w s s₁ := by
    subst server
    exact ⟨⟨le_rfl, fun _ _ old => old, fun _ _ => .inl⟩, rfl⟩
  have found : s₁.instances.lookup inst.id = some rec := by
    subst server
    exact AList.lookup_insert _
  have tabs₁ : s₁.graph.workspaces = s.graph.workspaces := by
    subst server
    rfl
  -- The content's nodes, each listed in the record.
  have placed : ∀ ns : List NodeSnap, (∀ n ∈ ns, n ∈ inst.content.nodes) →
      Settles w defs s₁ (ns.foldl (fun s snap => s.materialize w h inst.content.id snap []) s₁) := by
    intro ns sub homes₁
    refine (List.foldlRecOn (motive := fun s' => (s'.Homes w defs Tight ∧ Later w s₁ s' ∧
      s'.graph.workspaces = s₁.graph.workspaces) ∧ s'.instances = s₁.instances) ns _
        ⟨⟨homes₁, .refl s₁, rfl⟩, rfl⟩ ?_).1
    rintro s' ⟨⟨homes', later', tabs'⟩, instances⟩ n member
    have lives : s'.Home w n.id inst.content.id := by
      refine .inr ⟨rec, by rw [instances, contentId]; exact found, ?_⟩
      rw [← recordIs]
      exact List.mem_map_of_mem (sub n member)
    obtain ⟨homes'', later'', tabs''⟩ :=
      materialize_settles h distinct (plain n (sub n member)) lives [] homes'
    refine ⟨⟨homes'', later'.trans later'', tabs''.trans tabs'⟩, ?_⟩
    rw [← instances]
    exact (books_eq.1 (materialize_becomes w h s' inst.content.id n []).books).1
  have content := (placed inst.content.nodes fun _ => id).trans (applyWires_settles h _ inst.content)
  obtain ⟨homes₂, later₂, tabs₂⟩ := content.trans (setInstanceWires_settles inst.id
    (s₁.instantiateContent w h inst.content).2) homes₁
  exact ⟨homes₂, later₁.trans later₂, tabs₂.trans tabs₁⟩

theorem expandGroup_settles (distinct : Distinct w doc defs) (s : Server (Graph.ofDocument doc))
    (ws id : NodeId) : Settles w defs s (s.expandGroup w h ws id) := by
  intro homes
  unfold expandGroup
  split
  · exact ⟨homes, .refl s, rfl⟩
  · split
    · exact ⟨homes, .refl s, rfl⟩
    · next instances resolved =>
        obtain ⟨defs', indexed, grown⟩ := Instancing.expand_grows resolved
        rw [groupDocument_definitions homes, distinct.indexed] at indexed
        cases indexed
        refine settles_loop instances (fun s' later _ _ inst member => ?_) homes
        refine addInstance_settles h distinct ?_ (grown.holds inst member)
        exact (grown.names inst member).mono fun i d root => later.grows i d (groupDocument_roots homes root)

/-! ## Boundary lines -/

/-- Rewriting a group's lines keeps its definition, so homes are kept. -/
theorem updateGroup_settles {id : NodeId} {grp : GroupNode}
    (same : s.graph.definitionOf id = some grp.definition) :
    Settles w defs s (s.perform (.update id (.group grp))) := by
  intro homes
  have later : Later w s (s.perform (.update id (.group grp))) := later_of_edit rfl (fun _ _ _ _ _ same => by cases same) rfl rfl
  have places : ∀ n, (s.perform (.update id (.group grp))).graph.placeOf n = s.graph.placeOf n :=
    fun n => Graph.update_placeOf s.graph id n (.group grp)
  have rows : ∀ n, (s.perform (.update id (.group grp))).graph.definitionOf n = s.graph.definitionOf n := by
    intro n
    rw [perform_graph, Edit.apply, Graph.update_definitionOf _ _ _ fun grp' eq => ?_]
    cases eq
    exact same
  refine ⟨homes.carry later rfl ?_ (fun t => .inl) ?_ ?_ (fun i rec => .inl) ?_ (fun u => .inl)
    (fun u => .inl), later, rfl⟩
  · exact homes.once_of_edit rfl fun _ _ _ _ _ same => by cases same
  · exact fun i d row => .inl ((rows i).symm.trans row)
  · exact fun n ws place => .inl ((places n).symm.trans place)
  · exact fun n kind ws place tight => .inl ⟨(places n).symm.trans place, tight, fun home => home⟩

theorem rewireInstance_settles (s : Server (Graph.ofDocument doc)) (inst : Instancing.Instance) :
    Settles w defs s (s.rewireInstance w h inst) := by
  unfold rewireInstance
  dsimp only
  split
  · exact .refl s
  · next rec _ =>
      have unwired : ∀ (s : Server (Graph.ofDocument doc)) (wires : List (WireRel × NodeId × NodeId)),
          Becomes (WireEdit False) s
            (wires.foldl (fun s wire => s.unwireRel w h wire.1 wire.2.1 wire.2.2) s) :=
        fun s wires => becomes_foldl wires fun s wire _ => unwireRel_becomes w h s ..
      have released : Settles w defs s (s.setInstanceWires inst.id []) := setInstanceWires_settles inst.id []
      have cleared := released.trans
        (unwired _ (rec.wires.filter fun wire => wire ∉ wiresOf inst.content)).settles
      exact (cleared.trans (applyWires_settles h _ inst.content)).trans (setInstanceWires_settles inst.id _)

theorem rewireGroup_settles {ws id : NodeId} (done : s.rewireGroup w h ws id = .ok s') :
    Settles w defs s s' := by
  obtain ⟨instances, rfl⟩ := rewireGroup_ok done
  exact settles_foldl _ fun s inst _ => rewireInstance_settles h s inst

theorem setBoundaryWire_settles (s : Server (Graph.ofDocument doc)) (line : BoundaryWire) (wired : Bool) :
    Settles w defs s (s.setBoundaryWire w h line wired) := by
  unfold setBoundaryWire
  split
  · next rec before _ row =>
      have named : s.graph.definitionOf line.group = some before.definition := by
        rw [Graph.definitionOf, row]
        rfl
      have lines : ∀ l, (before.setLines line.dir l).definition = before.definition := by
        intro l
        unfold GroupNode.setLines
        split <;> rfl
      dsimp only
      split
      · exact .refl s
      · have written : ∀ l, Settles w defs s
            (s.perform (.update line.group (.group (before.setLines line.dir l)))) :=
          fun l => updateGroup_settles (by rw [named, lines])
        split
        · next done => exact (written _).trans (rewireGroup_settles h done)
        · refine (written _).trans (updateGroup_settles ?_)
          rw [perform_graph, Edit.apply, Graph.update_definitionOf _ _ _ fun grp eq => ?_]
          · exact named
          · cases eq
            rw [named, lines]
  · exact .refl s

end Server

end Wk
