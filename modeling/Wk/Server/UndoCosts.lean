/-
# Wk.Server.UndoCosts -- commands that change nothing, and what they cost

Most inverses are recorded before the command is dispatched, from what is known then.
`Idle` collects the commands that leave the graph alone because they are refused, name
nodes that do not exist, or ask for a wire two nodes cannot form; `Costs` the three of
them whose inverse is pushed all the same.

* `dispatch_undo`: no command but Undo touches the stack when it is dispatched.
* `updateNode_missing`: patching a node that does not exist leaves the graph.
* `connectToggle_graph_iff`: two nodes are joined, or cannot be, or wait.
* `idle_spares_undo_iff`: an idle command leaves the stack alone exactly when it is none
  of the three.

Poles: `missing_deleted` (nothing recorded), `volumes_wired` (an inverse for a wire that
cannot be, which takes the place of the last edit's).
-/
import Wk.Server.Homes
import Wk.Server.Layout
import Wk.Server.PrivateNets
import Wk.Server.SideTables

namespace Wk

open Wk.Library

set_option autoImplicit false

namespace Server

variable {start : Graph} (w : World) (h : Host)

/-! ## Idle commands -/

/-- A command that changes nothing because it is refused, names a node that does not
exist, or asks for a wire the two nodes cannot form.  Of the commands whose inverse is
not recorded beforehand any may be one. -/
def Idle (s : Server start) : Command → Prop
  | .undo => False
  | .create (.wire a b) =>
    (s.refuseStructuralEdit (.create (.wire a b))).isSome ∨ a ∉ s.graph.nodes ∨ b ∉ s.graph.nodes ∨
      Wiring.classify a b (s.graph.classOf a) (s.graph.classOf b) = none
  | .update id _ => id ∉ s.graph.nodes
  | .setToken id token =>
    s.graph.kindOf id ≠ some .app ∨ (token ≠ [] ∧ s.nodeAuth.isSome = true ∧ w.verifies token = false)
  | _ => True

/-- Recording this entry changes the stack: it continues no run of edits, and the stack is
not full of it. -/
def Pushes (s : Server start) (u : Undo) : Prop :=
  coalesces s.undo.head? u = false ∧ s.undo ≠ List.replicate undoCap u

/-- The wire waits, for one of its ends has yet to compile. -/
def Waits (s : Server start) (a b : NodeId) : Prop :=
  ∃ src dst, Wiring.classify a b (s.graph.classOf a) (s.graph.classOf b) = some (.midi src dst) ∧
    (s.runtime.isLoading h src || s.runtime.isLoading h dst) = true

/-- A wire the two nodes cannot form, or one that waits and has an end that does not
exist. -/
def NoWire (s : Server start) (a b : NodeId) : Prop :=
  Wiring.classify a b (s.graph.classOf a) (s.graph.classOf b) = none ∨
    (s.Waits h a b ∧ (a ∉ s.graph.nodes ∨ b ∉ s.graph.nodes))

/-- An idle command that is recorded all the same. -/
def Costs (s : Server start) : Command → Prop
  | .create (.wire a b) =>
    s.refuseStructuralEdit (.create (.wire a b)) = none ∧ s.graph.wired a b = false ∧ s.NoWire h a b ∧
      s.Pushes (.wire a b)
  | .update id patch => id ∉ s.graph.nodes ∧ patch.args.isSome = true ∧ s.Pushes (.args id [])
  | .setToken id token =>
    s.graph.kindOf id = some .app ∧ token ≠ [] ∧ s.nodeAuth.isSome = true ∧ w.verifies token = false ∧
      s.Pushes (.token id (s.graph.nodeTokens.lookup id))
  | _ => False

/-! ## The stack -/

section Stack

variable {w h} {s : Server start}

theorem record_undo (s : Server start) (u : Undo) :
    (s.record u).undo = if coalesces s.undo.head? u then s.undo else (u :: s.undo).take undoCap := by
  unfold record
  split <;> rfl

/-- A full stack is kept as it was only where every entry is the new one. -/
theorem take_cons_eq {α : Type} {u : α} : ∀ {n : Nat} {xs : List α}, (u :: xs).take n = xs ↔ xs = List.replicate n u
  | 0, xs => by simp [eq_comm]
  | n + 1, [] => by simp
  | n + 1, x :: xs => by
    rw [List.take_succ_cons, List.replicate_succ, List.cons.injEq, List.cons.injEq]
    constructor
    · rintro ⟨rfl, rest⟩
      exact ⟨rfl, take_cons_eq.1 rest⟩
    · rintro ⟨rfl, rest⟩
      exact ⟨rfl, take_cons_eq.2 rest⟩

theorem record_undo_iff (u : Undo) : (s.record u).undo = s.undo ↔ ¬s.Pushes u := by
  rw [record_undo, Pushes]
  by_cases run : coalesces s.undo.head? u = true
  · simp [run]
  · rw [if_neg run, take_cons_eq]
    simp [Bool.not_eq_true _ ▸ run]

theorem Becomes.undo {ok : Graph → Edit → Prop} {s' : Server start} (became : Becomes ok s s') : s'.undo = s.undo :=
  congrArg (fun books => books.2.1) became.books

theorem Becomes.wires_undo {s' : Server start} (became : Becomes (WireEdit False) s s') : s'.undo = s.undo := became.undo

theorem Becomes.node_undo {id : NodeId} {s' : Server start} (became : Becomes (NodeEdit id none) s s') :
    s'.undo = s.undo := became.undo

theorem place_undo (s : Server start) (id ws : NodeId) (pos size : Vec2) (payload : Payload) :
    (s.place id ws pos size payload).undo = s.undo := rfl

theorem foldl_undo {α : Type} {f : Server start → α → Server start} (turn : ∀ s x, (f s x).undo = s.undo) :
    ∀ (xs : List α) (s : Server start), (xs.foldl f s).undo = s.undo
  | [], _ => rfl
  | x :: xs, s => (foldl_undo turn xs (f s x)).trans (turn s x)

variable (w h)

theorem removeWith_undo {tearDown : Server start → NodeId → Server start}
    (down : ∀ s id, (tearDown s id).undo = s.undo) (s : Server start) (id : NodeId) :
    (removeWith w h tearDown s id).undo = s.undo := by
  unfold removeWith
  split
  · rfl
  · exact down s id
  · rfl

theorem unwireRel_undo (s : Server start) (r : WireRel) (a b : NodeId) : (s.unwireRel w h r a b).undo = s.undo :=
  (unwireRel_becomes w h s r a b).wires_undo

/-- Tearing an instance down.  Induction on the fuel. -/
theorem tearDownInstance_undo (fuel : Nat) : ∀ (s : Server start) (id : NodeId),
    (tearDownInstance w h fuel s id).undo = s.undo := by
  induction fuel with
  | zero => exact fun _ _ => rfl
  | succ fuel ih =>
    intro s id
    have nested := foldl_undo ih (s.nestedIn id) s
    unfold tearDownInstance
    dsimp only
    split
    · exact nested
    · refine (foldl_undo (removeWith_undo w h ih) _ _).trans ?_
      refine (foldl_undo (fun s (wire : WireRel × NodeId × NodeId) => unwireRel_undo w h s wire.1 wire.2.1 wire.2.2) _ _).trans ?_
      exact nested

theorem removeAny_undo (s : Server start) (id : NodeId) : (s.removeAny w h id).undo = s.undo :=
  removeWith_undo w h (tearDownInstance_undo w h s.depth) s id

theorem removeWorkspace_undo (s : Server start) (id : NodeId) : (s.removeWorkspace w h id).undo = s.undo := by
  unfold removeWorkspace
  split
  · rfl
  · exact foldl_undo (removeAny_undo w h) _ s

theorem setInstanceWires_undo (s : Server start) (id : NodeId) (wires : List (WireRel × NodeId × NodeId)) :
    (s.setInstanceWires id wires).undo = s.undo := by
  unfold setInstanceWires
  split <;> rfl

theorem applyWires_undo (s : Server start) (saved : Workspace) : (s.applyWires w h saved).1.undo = s.undo :=
  (applyWires_becomes w h s saved).wires_undo

theorem instantiateContent_undo (s : Server start) (content : Workspace) :
    (s.instantiateContent w h content).1.undo = s.undo := by
  unfold instantiateContent
  refine (applyWires_undo w h _ content).trans (foldl_undo (fun s snap => ?_) _ s)
  exact (materialize_becomes w h s content.id snap []).undo

theorem addInstance_undo (s : Server start) (inst : Instancing.Instance) : (s.addInstance w h inst).undo = s.undo := by
  unfold addInstance
  dsimp only
  exact (setInstanceWires_undo _ _ _).trans (instantiateContent_undo w h _ inst.content)

theorem expandGroup_undo (s : Server start) (ws id : NodeId) : (s.expandGroup w h ws id).undo = s.undo := by
  unfold expandGroup
  split
  · rfl
  · split
    · rfl
    · exact foldl_undo (addInstance_undo w h) _ s

theorem rewireInstance_undo (s : Server start) (inst : Instancing.Instance) :
    (s.rewireInstance w h inst).undo = s.undo := by
  unfold rewireInstance
  dsimp only
  split
  · rfl
  · refine (setInstanceWires_undo _ _ _).trans ((applyWires_undo w h _ inst.content).trans ?_)
    refine (foldl_undo (fun s (wire : WireRel × NodeId × NodeId) => unwireRel_undo w h s wire.1 wire.2.1 wire.2.2) _ _).trans ?_
    exact setInstanceWires_undo _ _ _

theorem rewireGroup_undo {s s' : Server start} {ws id : NodeId} (done : s.rewireGroup w h ws id = .ok s') :
    s'.undo = s.undo := by
  obtain ⟨instances, rfl⟩ := rewireGroup_ok done
  exact foldl_undo (rewireInstance_undo w h) _ s

theorem setBoundaryWire_undo (s : Server start) (line : BoundaryWire) (wired : Bool) :
    (s.setBoundaryWire w h line wired).undo = s.undo := by
  unfold setBoundaryWire
  split
  · dsimp only
    split
    · rfl
    · split
      · next done =>
          have kept := rewireGroup_undo w h done
          exact kept
      · rfl
  · rfl

theorem duplicate_undo (s : Server start) (id : NodeId) : (s.duplicate w h id).undo = s.undo := by
  unfold duplicate
  split
  · rfl
  · dsimp only
    split
    · split
      · rfl
      · exact place_undo ..
    · split
      · exact (addVirtualFile_becomes w s ..).undo
      · exact (addHostMappedFile_becomes w s ..).undo
      · split
        · exact (addHostPort_becomes w s ..).undo
        · exact (addPlain_becomes w s (by rfl) ..).undo
        · exact (addPlain_becomes w s (by rfl) ..).undo
        · exact (addIrohNode_becomes w h s ..).undo
        · exact (addVeilidNode_becomes w h s ..).undo
        · split
          · rfl
          · exact (expandGroup_undo w h _ _ _).trans (placeGroup_becomes w s ..).undo
        · rfl

/-- **No command but Undo touches the stack** when it is dispatched. -/
theorem dispatch_undo (s : Server start) {cmd : Command} (other : cmd ≠ .undo) : (s.dispatch w h cmd).undo = s.undo := by
  unfold dispatch
  split
  · exact (createNode_becomes w h s ..).undo
  · exact (addHostMount_becomes w h s ..).undo
  · split
    · rfl
    · exact (connectToggle_becomes w h s nofun).wires_undo
  · rfl
  · exact setBoundaryWire_undo w h s ..
  · exact (updateNode_becomes w h s _).node_undo
  · exact setBoundaryWire_undo w h s ..
  · exact removeAny_undo w h s _
  · exact unwireRel_undo w h s ..
  · exact removeWorkspace_undo w h s _
  · exact (setMount_becomes w h s ..).wires_undo
  · exact (setMidiChannel_becomes s ..).wires_undo
  · exact (setMulticastConfig_becomes h s ..).node_undo
  · exact (setServePort_becomes s ..).wires_undo
  · exact (setNodeToken_becomes w s ..).node_undo
  · rfl
  · rfl
  · exact duplicate_undo w h s _
  · rfl
  · exact absurd rfl other

end Stack

end Server

/-! ## Rows of nodes that are gone -/

/-- The tables that every removal clears and no pose restores. -/
def SideTable.swept : SideTable → Bool
  | .pos3d | .hiddenPanel3d => false
  | t => t.clearedBy.isNone

/-- Every row of these tables has its node. -/
def Canvas.Swept (c : Canvas) : Prop := ∀ t, SideTable.swept t = true → ∀ id ∈ c.keysOf t, id ∈ c.nodes

namespace Graph

theorem swept_clears {t : SideTable} (swept : t.swept = true) : t.clearedBy = none := by
  cases t <;> first | rfl | cases swept

theorem swept_of_rows {g g' : Graph} (good : g.Swept) (nodes : ∀ n ∈ g.nodes, n ∈ g'.nodes)
    (rows : ∀ t, SideTable.swept t = true → ∀ n ∈ g'.keysOf t, n ∈ g.keysOf t) : g'.Swept :=
  fun t swept n member => nodes n (good t swept n (rows t swept n member))

theorem swept_remove {g : Graph} {order : List Pair → List Pair} {id : NodeId} (good : g.Swept) :
    (g.remove order id).Swept := by
  by_cases present : id ∈ g.nodes
  · intro t swept n member
    rw [remove, if_pos present] at member ⊢
    obtain ⟨kept, other⟩ := mem_forget_keysOf member
    have old := (mem_dropOwn_keysOf kept).1
    rw [dropWires_toCanvas] at old
    rw [forget_nodes, unwire_nodes]
    exact AList.mem_erase.2 ⟨other (swept_clears swept), good t swept n old⟩
  · rw [remove_absent g present]
    exact good

/-- **One edit** leaves no row of these tables without its node. -/
theorem swept_edit {g : Graph} (e : Edit) (good : g.Swept) : (e.apply g).Swept := by
  cases e with
  | place id ws pos size payload =>
    intro t swept n member
    rw [Edit.apply, place_nodes]
    rcases mem_place_keysOf member with old | ⟨rfl, _⟩
    · exact (AList.mem_insert _).2 (.inr (good t swept n old))
    · exact (AList.mem_insert _).2 (.inl rfl)
  | pose id pos3d panel3d =>
    refine swept_of_rows good (fun n here => ?_) fun t swept n member => ?_
    · cases pos3d <;> cases panel3d <;> exact here
    · cases pos3d <;> cases panel3d <;> cases t <;> first | exact member | cases swept
  | remove order id => exact swept_remove good
  | update id u =>
    intro t swept n member
    refine (mem_update_nodes g id n u).2 ?_
    rcases mem_update_keysOf member with old | ⟨rfl, home⟩
    · exact good t swept n old
    · exact home.node
  | keepTokens verifies =>
    refine swept_of_rows good (fun n here => here) fun t swept n member => ?_
    cases t with
    | nodeTokens =>
      obtain ⟨token, found, _⟩ := Table.mem_retain.1 (AList.mem_keys.1 member)
      exact AList.mem_keys.2 (Table.mem_of_lookup found)
    | _ => exact member
  | addTab index id =>
    simp only [Edit.apply, addTab]
    split <;> exact good
  | removeTab id =>
    simp only [Edit.apply, removeTab]
    split <;> exact good
  | dropNet key =>
    simp only [Edit.apply, dropNet_toCanvas]
    exact good
  | _ => exact good

theorem swept_ofDocument (doc : Document) : (ofDocument doc).Swept := by
  intro t _ n member
  cases t <;> exact absurd member List.not_mem_nil

theorem swept_lookup {β : Type} {rows : Table NodeId β} {c : Canvas} {id : NodeId} (absent : id ∉ c.nodes)
    (housed : ∀ n ∈ rows.keys, n ∈ c.nodes) : rows.lookup id = none :=
  AList.lookup_eq_none.2 fun here => absent (housed id (AList.mem_keys.1 here))

theorem alter_absent {α β : Type} [DecidableEq α] {t : Table α β} {key : α} {f : β → β}
    (absent : t.lookup key = none) : alter t key f = t := by
  rw [alter, absent]

end Graph

namespace Server

variable {start : Graph} {w : World} {h : Host} {s : Server start}

/-! ## Commands that name a missing node -/

/-- The history of a server carries it. -/
theorem swept {doc : Document} (s : Server (Graph.ofDocument doc)) : s.graph.Swept := by
  have every : s.history.Every fun _ _ => True := fun _ _ _ _ => trivial
  exact s.history.every_keeps (P := fun g => g.Swept) (Graph.swept_ofDocument doc)
    (fun _ e _ good => Graph.swept_edit e good) every

/-- One field of a patch keeps what its setter keeps. -/
theorem patchField_keeps {α : Type} {P : Server start → Prop} (here : P s) (field : Option α)
    {f : Server start → α → Server start} (turn : ∀ s v, P s → P (f s v)) : P (s.patchField field f) := by
  unfold patchField
  split
  · exact turn _ _ here
  · exact here

section Missing

variable {g : Graph} {id : NodeId} (absent : id ∉ g.nodes) (swept : g.Swept)

include absent swept

theorem missing_fileNode : g.fileNodes.lookup id = none := Graph.swept_lookup absent (swept .fileNodes rfl)

theorem missing_hostPort : g.hostPorts.lookup id = none := Graph.swept_lookup absent (swept .hostPorts rfl)

theorem missing_noteText : g.noteText.lookup id = none := Graph.swept_lookup absent (swept .noteText rfl)

theorem missing_hostService : g.hostServices.lookup id = none :=
  Graph.swept_lookup absent (swept .hostServices rfl)

theorem missing_nodeArgs : g.nodeArgs.lookup id = none := Graph.swept_lookup absent (swept .nodeArgs rfl)

omit swept in
theorem missing_node : g.nodes.lookup id = none := AList.lookup_eq_none.2 absent

omit swept in
theorem missing_kind : g.kindOf id = none := by
  rw [Canvas.kindOf, missing_node absent]
  rfl

/-- Updating a node that does not exist leaves the graph. -/
theorem update_missing {u : Update} (noGroup : ∀ grp, u ≠ .group grp) (token : u ≠ .noToken) : g.update id u = g := by
  have kind : ∀ k, g.kindOf id ≠ some k := by
    rw [missing_kind absent]
    nofun
  cases u with
  | pos | size => simp only [Graph.update, Graph.alter_absent (missing_node absent)]
  | port => simp only [Graph.update, Graph.alter_absent (missing_hostPort absent swept)]
  | text => simp only [Graph.update, Graph.alter_absent (missing_noteText absent swept)]
  | bindPath | persist => simp only [Graph.update, Graph.alter_absent (missing_fileNode absent swept)]
  | serviceName | serviceTarget => simp only [Graph.update, Graph.alter_absent (missing_hostService absent swept)]
  | midiIn | midiOut | multicast => exact if_neg (kind _)
  | pos3d | showPanel | hidePanel | args | token => exact if_neg absent
  | noToken => exact absurd rfl token
  | group grp => exact absurd rfl (noGroup grp)

/-- Patching a node that does not exist leaves the graph. -/
theorem updateNode_missing (w : World) (h : Host) (patch : NodePatch) (here : s.graph = g) :
    (s.updateNode w h id patch).graph = g := by
  have plain : ∀ (s : Server start) (u : Update), (∀ grp, u ≠ .group grp) → u ≠ .noToken → s.graph = g →
      (s.perform (.update id u)).graph = g := by
    intro s u noGroup token here
    rw [perform_graph, here]
    exact update_missing absent swept noGroup token
  have panel : ∀ (s : Server start) (shown : Bool), s.graph = g →
      (s.perform (.update id (if shown then .showPanel else .hidePanel))).graph = g := by
    intro s shown
    cases shown with
    | true => exact plain s _ nofun nofun
    | false => exact plain s _ nofun nofun
  have args : ∀ (s : Server start) text, s.graph = g → (s.setNodeArgs id text).graph = g := by
    intro s text here
    unfold setNodeArgs
    split
    · exact plain s _ nofun nofun here
    · exact here
  have port : ∀ (s : Server start) n, s.graph = g → (s.setHostPort id n).graph = g := by
    rintro s n rfl
    rw [setHostPort, missing_hostPort absent swept]
  have delta : ∀ (s : Server start) n, s.graph = g → (s.changePort id n).graph = g := by
    rintro s n rfl
    rw [changePort, missing_hostPort absent swept]
  have path : ∀ (s : Server start) at_, s.graph = g → (s.setBindPath w h id at_).graph = g := by
    rintro s at_ rfl
    rw [setBindPath, missing_fileNode absent swept]
  have device : ∀ (s : Server start) want, s.graph = g → (s.setMidiDevice h id want).graph = g := by
    rintro s want rfl
    rw [setMidiDevice, missing_kind absent]
  have named : ∀ (s : Server start) name, s.graph = g →
      (if trim name = "" then s else s.perform (.update id (.serviceName (trim name)))).graph = g := by
    intro s name here
    split
    · exact here
    · exact plain s _ nofun nofun here
  unfold updateNode
  -- The fields as they are patched, the last one first.
  refine patchField_keeps (P := fun s => s.graph = g) ?_ _ fun s _ => plain s _ nofun nofun
  refine patchField_keeps (P := fun s => s.graph = g) ?_ _ fun s _ => plain s _ nofun nofun
  refine patchField_keeps (P := fun s => s.graph = g) ?_ _ named
  refine patchField_keeps (P := fun s => s.graph = g) ?_ _ device
  refine patchField_keeps (P := fun s => s.graph = g) ?_ _ path
  refine patchField_keeps (P := fun s => s.graph = g) ?_ _ fun s _ => plain s _ nofun nofun
  refine patchField_keeps (P := fun s => s.graph = g) ?_ _ port
  refine patchField_keeps (P := fun s => s.graph = g) ?_ _ delta
  refine patchField_keeps (P := fun s => s.graph = g) ?_ _ args
  refine patchField_keeps (P := fun s => s.graph = g) ?_ _ fun s _ => plain s _ nofun nofun
  refine patchField_keeps (P := fun s => s.graph = g) ?_ _ panel
  refine patchField_keeps (P := fun s => s.graph = g) ?_ _ fun s _ => plain s _ nofun nofun
  exact patchField_keeps (P := fun s => s.graph = g) here _ fun s _ => plain s _ nofun nofun

/-- Of a patch of a node that does not exist only the arguments are recorded. -/
theorem recordBefore_missing (w : World) (h : Host) (patch : NodePatch) (here : s.graph = g) :
    s.recordBefore w h (.update id patch) = if patch.args.isSome then s.record (.args id []) else s := by
  subst here
  have port := missing_hostPort absent swept
  have text := missing_noteText absent swept
  have node := missing_node absent
  have old := missing_nodeArgs absent swept
  cases edits : patch.args with
  | none => simp [recordBefore, edits, node, port, text]
  | some args => simp [recordBefore, edits, node, port, text, old, record_graph]

end Missing

/-! ## Commands that change something -/

theorem toggle_changes (g : Graph) (r : WireRel) (a b : NodeId) : (g.toggle r a b).links r ≠ g.links r := by
  rw [Graph.toggle_links, if_pos rfl]
  by_cases present : (a, b) ∈ g.links r
  · have shorter : ((g.links r).erase (a, b)).length < (g.links r).length := by
      rw [List.length_erase_of_mem present]
      exact Nat.sub_lt (List.length_pos_of_mem present) Nat.one_pos
    intro same
    split at same
    · rw [Wiring.toggleUnique_of_mem present] at same
      exact absurd (congrArg List.length same) shorter.ne
    · rw [Wiring.togglePair_of_mem present] at same
      exact absurd (congrArg List.length same) shorter.ne
  · intro same
    refine present (same ▸ ?_)
    split
    · rw [Wiring.toggleUnique_of_not_mem present]
      exact List.mem_append_right _ (List.mem_singleton_self _)
    · rw [Wiring.togglePair_of_not_mem present]
      exact List.mem_append_right _ (List.mem_singleton_self _)

theorem syncAppLinkNets_midiLinks (s : Server start) :
    (s.syncAppLinkNets w h).graph.midiLinks = s.graph.midiLinks := by
  unfold syncAppLinkNets
  refine List.foldlRecOn (motive := fun s' : Server start => s'.graph.midiLinks = s.graph.midiLinks) _ _ ?_ ?_
  · refine List.foldlRecOn (motive := fun s' : Server start => s'.graph.midiLinks = s.graph.midiLinks) _ _ rfl ?_
    intro s' same key _
    exact (midiLinks_dropNet _ key).trans same
  · intro s' same key _
    split
    · exact same
    · exact (midiLinks_mintNet _ key _).trans same

/-- The reconciling that follows a toggle leaves the toggled relation alone. -/
theorem toggleRel_links (s : Server start) (r : WireRel) (a b : NodeId) :
    (s.toggleRel w h r a b).graph.links r = (s.graph.toggle r a b).links r := by
  cases r with
  | midi => exact syncAppLinkNets_midiLinks _
  | _ => rfl

theorem toggleRel_changes (s : Server start) (r : WireRel) (a b : NodeId) :
    (s.toggleRel w h r a b).graph ≠ s.graph := by
  intro same
  refine toggle_changes s.graph r a b ?_
  rw [← toggleRel_links (w := w) (h := h), same]

theorem unwireRel_changes {r : WireRel} {a b : NodeId} (present : (a, b) ∈ s.graph.links r) :
    (s.unwireRel w h r a b).graph ≠ s.graph := by
  rw [unwireRel, if_pos present]
  exact toggleRel_changes s r a b

/-- Two nodes are joined, or parted, unless they can form no wire or it waits. -/
theorem connectToggle_graph_iff {a b : NodeId} :
    (s.connectToggle w h a b).graph = s.graph ↔
      Wiring.classify a b (s.graph.classOf a) (s.graph.classOf b) = none ∨ s.Waits h a b := by
  have formed : ∀ {wire : Wire} {s' : Server start}, s'.graph ≠ s.graph →
      Wiring.classify a b (s.graph.classOf a) (s.graph.classOf b) = some wire → ¬s.Waits h a b →
      (s'.graph = s.graph ↔
        Wiring.classify a b (s.graph.classOf a) (s.graph.classOf b) = none ∨ s.Waits h a b) := by
    intro wire s' changed wired now
    simp [changed, wired, now]
  unfold connectToggle
  split <;> rename_i found
  · exact formed (toggleRel_changes (w := w) (h := h) s .connection _ _) found (by simp [Waits, found])
  · exact formed (toggleRel_changes (w := w) (h := h) s .serve _ _) found (by simp [Waits, found])
  · exact formed (toggleRel_changes (w := w) (h := h) s .netLink _ _) found (by simp [Waits, found])
  · exact formed (toggleRel_changes (w := w) (h := h) s .captureLink _ _) found (by simp [Waits, found])
  · exact formed (toggleRel_changes (w := w) (h := h) s .clipboardLink _ _) found (by simp [Waits, found])
  · exact formed (toggleRel_changes (w := w) (h := h) s .apiLink _ _) found (by simp [Waits, found])
  · split
    · next waits => exact iff_of_true rfl (.inr ⟨_, _, found, waits⟩)
    · next loaded =>
        have now : ¬s.Waits h a b := by
          rintro ⟨src, dst, same, waits⟩
          rw [found] at same
          cases same
          exact loaded waits
        split
        · exact formed (toggleRel_changes (w := w) (h := h) s .connection _ _) found now
        · split
          · exact formed (toggleRel_changes (w := w) (h := h) s .connection _ _) found now
          · exact formed (toggleRel_changes (w := w) (h := h) s .midi _ _) found now
  · exact iff_of_true rfl (.inl found)

theorem removeLeaf_absent (s : Server start) (id : NodeId) : id ∉ (s.removeLeaf w h id).graph.nodes := by
  intro here
  obtain ⟨kind, found⟩ := Canvas.exists_kindOf here
  have gone := Graph.remove_kindOf s.graph h.pairs id id
  rw [if_pos rfl] at gone
  exact absurd (found.symm.trans gone) nofun

theorem removeAny_changes (id : NodeId) (present : id ∈ s.graph.nodes) : (s.removeAny w h id).graph ≠ s.graph := by
  intro same
  obtain ⟨kind, found⟩ := Canvas.exists_kindOf present
  have gone : id ∉ (s.removeAny w h id).graph.nodes := by
    unfold removeAny removeWith
    split
    · next none => exact absurd (found.symm.trans none) nofun
    · exact removeLeaf_absent _ id
    · exact removeLeaf_absent s id
  rw [same] at gone
  exact gone present

theorem removal_workspaces {g : Graph} {e : Edit} (removal : Removal False g e) :
    (e.apply g).workspaces = g.workspaces := by
  rcases removal with wire | ⟨order, id, rfl, _⟩
  · rw [wire.toCanvas]
  · exact Graph.remove_workspaces g order id

theorem removeTab_drops {g : Graph} {id : NodeId} (several : 1 < g.workspaces.length) (present : id ∈ g.workspaces) :
    id ∉ (g.removeTab id).workspaces := by
  rw [Graph.removeTab, if_neg (by simp [several, present])]
  simp

theorem removeWorkspace_changes (id : NodeId) (several : 1 < s.graph.workspaces.length)
    (present : id ∈ s.graph.workspaces) : (s.removeWorkspace w h id).graph ≠ s.graph := by
  -- The nodes of the tab are removed first, and no tab with them.
  have emptied : ∀ victims : List NodeId,
      (victims.foldl (removeAny w h) s).graph.workspaces = s.graph.workspaces := fun victims =>
    (leads_foldl victims fun s id _ => removeAny_removes w h s id).keeps
      (P := fun g => g.workspaces = s.graph.workspaces) (fun _ _ removal kept => (removal_workspaces removal).trans kept) rfl
  intro same
  rw [removeWorkspace, if_neg (by simp [several, present])] at same
  refine absurd ((congrArg (fun g : Graph => g.workspaces) same) ▸ present) (removeTab_drops ?_ ?_)
  · exact (emptied _).symm ▸ several
  · exact (emptied _).symm ▸ present

theorem addTab_changes {index : Nat} {id : NodeId} (new : id ∉ s.graph.workspaces) :
    (s.graph.addTab index id) ≠ s.graph := by
  intro same
  refine new (same ▸ ?_)
  rw [Graph.addTab, if_neg new]
  exact (List.mem_insertIdx (Nat.min_le_right ..)).2 (.inl rfl)

/-! ## Each command -/

theorem apply_refused {cmd : Command} (refused : (s.refuseStructuralEdit cmd).isSome = true) : s.apply w h cmd = s := by
  unfold apply
  rw [if_pos refused]

/-- What an inverse recorded beforehand does to the stack is what the whole command does. -/
theorem recorded_undo {cmd : Command} (other : cmd ≠ .undo)
    (whole : s.apply w h cmd = (s.recordBefore w h cmd).dispatch w h cmd) :
    (s.apply w h cmd).undo = (s.recordBefore w h cmd).undo := by
  rw [whole, dispatch_undo w h _ other]

/-- A command that records what appeared spares the stack when nothing did. -/
theorem created_spares {s' : Server start} (kept : s'.undo = s.undo)
    (same : (let created := (h.ids s'.graph.nodes.keys).filter fun id => id ∉ s.graph.nodes.keys
      if created = [] then s' else s'.record (.uncreate created)).graph = s.graph) :
    (let created := (h.ids s'.graph.nodes.keys).filter fun id => id ∉ s.graph.nodes.keys
      if created = [] then s' else s'.record (.uncreate created)).undo = s.undo := by
  have graph : s'.graph = s.graph := by
    dsimp only at same
    split at same
    · exact same
    · rwa [record_graph] at same
  have none : ((h.ids s'.graph.nodes.keys).filter fun id => id ∉ s.graph.nodes.keys) = [] := by
    refine List.filter_eq_nil_iff.2 fun id member => ?_
    rw [graph] at member
    simpa using AList.mem_keys.1 ((h.ids_perm _).mem_iff.1 member)
  dsimp only
  rw [if_pos none]
  exact kept

theorem boundary_spares {s' : Server start} {line : BoundaryWire} (kept : s'.undo = s.undo)
    (same : (if s'.boundaryWired line ≠ s.boundaryWired line then s'.record (.boundary line (s.boundaryWired line))
      else s').graph = s.graph) :
    (if s'.boundaryWired line ≠ s.boundaryWired line then s'.record (.boundary line (s.boundaryWired line))
      else s').undo = s.undo := by
  have graph : s'.graph = s.graph := by
    split at same
    · rwa [record_graph] at same
    · exact same
  have line : s'.boundaryWired line = s.boundaryWired line := by rw [boundaryWired, graph]; rfl
  rw [if_neg (not_not.2 line)]
  exact kept

/-- Nothing of the running half depends on the stack. -/
theorem record_eq (s : Server start) (u : Undo) : ∃ undo, s.record u = { s with undo } := by
  unfold record
  split
  · exact ⟨s.undo, rfl⟩
  · exact ⟨_, rfl⟩

theorem createWire_recorded (a b : NodeId) :
    ∃ undo, s.recordBefore w h (.create (.wire a b)) = { s with undo } := by
  unfold recordBefore
  dsimp only
  split
  · exact ⟨s.undo, rfl⟩
  · split <;> exact record_eq s _

theorem createWire_graph_iff {a b : NodeId} (apart : s.graph.wired a b ≠ true) :
    ((s.recordBefore w h (.create (.wire a b))).dispatch w h (.create (.wire a b))).graph = s.graph ↔
      Wiring.classify a b (s.graph.classOf a) (s.graph.classOf b) = none ∨ s.Waits h a b := by
  obtain ⟨undo, recorded⟩ := createWire_recorded (w := w) (h := h) (s := s) a b
  have toggled : ({ s with undo } : Server start).dispatch w h (.create (.wire a b)) =
      ({ s with undo } : Server start).connectToggle w h a b := if_neg apart
  rw [recorded, toggled]
  exact connectToggle_graph_iff (s := { s with undo })

theorem createWire_spares_iff {a b : NodeId} (accepted : s.refuseStructuralEdit (.create (.wire a b)) = none) :
    (s.Idle w (.create (.wire a b)) → (s.apply w h (.create (.wire a b))).graph = s.graph →
      (s.apply w h (.create (.wire a b))).undo = s.undo) ↔ ¬s.Costs w h (.create (.wire a b)) := by
  have whole : s.apply w h (.create (.wire a b)) =
      (s.recordBefore w h (.create (.wire a b))).dispatch w h (.create (.wire a b)) := by
    unfold apply
    rw [if_neg (by simp [accepted])]
  have undo := recorded_undo (by nofun) whole
  by_cases apart : s.graph.wired a b = true
  · -- The two are joined already: nothing is recorded.
    have nothing : s.recordBefore w h (.create (.wire a b)) = s := by simp [recordBefore, apart]
    rw [nothing] at undo
    simp [undo, Costs, apart]
  · have graph := createWire_graph_iff (w := w) (h := h) apart
    rw [← whole] at graph
    by_cases waiting : Wiring.classify a b (s.graph.classOf a) (s.graph.classOf b) = none ∨ s.Waits h a b
    · have recorded : s.recordBefore w h (.create (.wire a b)) = s.record (.wire a b) := by
        rcases waiting with none | ⟨src, dst, found, _⟩
        · simp [recordBefore, apart, none]
        · simp [recordBefore, apart, found]
      rw [recorded] at undo
      rw [undo, record_undo_iff, graph]
      have idle : s.Idle w (.create (.wire a b)) ↔ s.NoWire h a b := by
        constructor
        · rintro (refused | missing | missing | none)
          · simp [accepted] at refused
          · exact waiting.imp_right fun waits => ⟨waits, .inl missing⟩
          · exact waiting.imp_right fun waits => ⟨waits, .inr missing⟩
          · exact .inl none
        · rintro (none | ⟨_, missing | missing⟩)
          · exact .inr (.inr (.inr none))
          · exact .inr (.inl missing)
          · exact .inr (.inr (.inl missing))
      have costs : s.Costs w h (.create (.wire a b)) ↔ s.NoWire h a b ∧ s.Pushes (.wire a b) := by
        simp [Costs, accepted, apart]
      rw [idle, costs, not_and]
      exact ⟨fun spares noWire => spares noWire waiting, fun free noWire _ => free noWire⟩
    · have formed : ¬s.NoWire h a b := fun noWire => waiting (noWire.imp_right And.left)
      simp [graph, waiting, Costs, formed]

theorem setToken_spares_iff {id : NodeId} {token : Bytes} :
    (s.Idle w (.setToken id token) → (s.apply w h (.setToken id token)).graph = s.graph →
      (s.apply w h (.setToken id token)).undo = s.undo) ↔ ¬s.Costs w h (.setToken id token) := by
  have undo : (s.apply w h (.setToken id token)).undo = (s.recordBefore w h (.setToken id token)).undo :=
    recorded_undo nofun rfl
  by_cases app : s.graph.kindOf id = some .app
  · have recorded : s.recordBefore w h (.setToken id token) = s.record (.token id (s.graph.nodeTokens.lookup id)) :=
      if_pos app
    rw [recorded] at undo
    rw [undo, record_undo_iff]
    -- A token that is refused leaves the graph.
    have graph : s.Idle w (.setToken id token) → (s.apply w h (.setToken id token)).graph = s.graph := by
      intro idle
      obtain other | ⟨given, auth, unverified⟩ := idle
      · exact absurd app other
      · have refused : (s.recordBefore w h (.setToken id token)).setNodeToken w id token =
            s.recordBefore w h (.setToken id token) := by
          obtain ⟨undo, same⟩ := record_eq s (.token id (s.graph.nodeTokens.lookup id))
          rw [recorded, same, setNodeToken]
          simp [given, auth, unverified]
        exact (congrArg Server.graph refused).trans ((congrArg Server.graph recorded).trans (record_graph s _))
    have costs : s.Costs w h (.setToken id token) ↔
        s.Idle w (.setToken id token) ∧ s.Pushes (.token id (s.graph.nodeTokens.lookup id)) := by
      simp [Costs, Idle, app, and_assoc]
    rw [costs, not_and]
    exact ⟨fun spares idle => spares idle (graph idle), fun free idle _ => free idle⟩
  · have nothing : s.recordBefore w h (.setToken id token) = s := if_neg app
    rw [nothing] at undo
    simp [undo, Costs, app]

theorem update_spares_iff {id : NodeId} {patch : NodePatch} (swept : s.graph.Swept) :
    (s.Idle w (.update id patch) → (s.apply w h (.update id patch)).graph = s.graph →
      (s.apply w h (.update id patch)).undo = s.undo) ↔ ¬s.Costs w h (.update id patch) := by
  have undo : (s.apply w h (.update id patch)).undo = (s.recordBefore w h (.update id patch)).undo :=
    recorded_undo nofun rfl
  by_cases absent : id ∈ s.graph.nodes
  · simp [Idle, Costs, absent]
  · have graph : (s.apply w h (.update id patch)).graph = s.graph :=
      updateNode_missing absent swept w h patch (recordBefore_update_graph w h s id patch)
    rw [recordBefore_missing absent swept w h patch rfl] at undo
    by_cases edits : patch.args.isSome = true
    · rw [if_pos edits] at undo
      rw [undo, record_undo_iff]
      simp [Idle, Costs, absent, graph, edits]
    · rw [if_neg edits] at undo
      simp [undo, Costs, edits]

/-- The other commands whose inverse is recorded beforehand do what they record. -/
theorem recorded_spares {cmd : Command} (other : cmd ≠ .undo)
    (whole : s.apply w h cmd = (s.recordBefore w h cmd).dispatch w h cmd)
    (recorded : s.recordBefore w h cmd = s ∨
      ∃ u, s.recordBefore w h cmd = s.record u ∧ ((s.record u).dispatch w h cmd).graph ≠ (s.record u).graph)
    (same : (s.apply w h cmd).graph = s.graph) : (s.apply w h cmd).undo = s.undo := by
  rw [recorded_undo other whole]
  rcases recorded with nothing | ⟨u, recorded, changed⟩
  · rw [nothing]
  · rw [whole, recorded] at same
    exact absurd (same.trans (record_graph s u).symm) changed

theorem create_spares {resource : Resource} (accepted : s.refuseStructuralEdit (.create resource) = none)
    (noWire : ∀ a b, resource ≠ .wire a b) (same : (s.apply w h (.create resource)).graph = s.graph) :
    (s.apply w h (.create resource)).undo = s.undo := by
  have go : ¬(s.refuseStructuralEdit (.create resource)).isSome = true := by simp [accepted]
  cases resource with
  | node kind pos ws =>
    unfold apply at same ⊢
    rw [if_neg go] at same ⊢
    exact created_spares (dispatch_undo w h s nofun) same
  | hostMount path pos ws =>
    unfold apply at same ⊢
    rw [if_neg go] at same ⊢
    exact created_spares (dispatch_undo w h s nofun) same
  | wire a b => exact absurd rfl (noWire a b)
  | workspace id =>
    refine recorded_spares nofun (by unfold apply; rw [if_neg go]) ?_ same
    by_cases there : id ∈ s.graph.workspaces
    · exact .inl (if_pos there)
    · refine .inr ⟨.dropWorkspace id, if_neg there, addTab_changes ?_⟩
      rwa [record_graph]
  | boundary line =>
    unfold apply at same ⊢
    rw [if_neg go] at same ⊢
    exact boundary_spares (dispatch_undo w h s nofun) same

theorem delete_spares {target : ResourceRef} (accepted : s.refuseStructuralEdit (.delete target) = none)
    (same : (s.apply w h (.delete target)).graph = s.graph) : (s.apply w h (.delete target)).undo = s.undo := by
  have go : ¬(s.refuseStructuralEdit (.delete target)).isSome = true := by simp [accepted]
  cases target with
  | boundary line =>
    unfold apply at same ⊢
    rw [if_neg go] at same ⊢
    exact boundary_spares (dispatch_undo w h s nofun) same
  | node id =>
    refine recorded_spares nofun (by unfold apply; rw [if_neg go]) ?_ same
    unfold recordBefore
    dsimp only
    split
    · next snap found =>
        refine .inr ⟨_, rfl, removeAny_changes id ?_⟩
        rw [record_graph]
        unfold snapshot at found
        split at found
        · next node _ => exact Table.mem_of_lookup node
        · cases found
    · exact .inl rfl
  | wire wire =>
    refine recorded_spares nofun (by unfold apply; rw [if_neg go]) ?_ same
    by_cases there : s.wireExists wire = true
    · refine .inr ⟨_, if_pos there, unwireRel_changes ?_⟩
      rw [record_graph]
      exact of_decide_eq_true there
    · exact .inl (if_neg there)
  | workspace id =>
    refine recorded_spares nofun (by unfold apply; rw [if_neg go]) ?_ same
    unfold recordBefore
    dsimp only
    split
    · next there =>
        split
        · refine .inr ⟨_, rfl, removeWorkspace_changes id ?_ ?_⟩
          · rw [record_graph]
            exact there.1
          · rw [record_graph]
            exact there.2
        · exact .inl rfl
    · exact .inl rfl

/-- **A command that changes nothing** and is refused, or names a missing node, or asks
for a wire that cannot be, spares the stack exactly where it does not cost, in every server
a session leads to (the history of the server carries what the run did). -/
theorem idle_spares_undo_iff {doc : Document} {steps : List Step} {h : Host} {s : Server (Graph.ofDocument doc)}
    (_ran : run w h doc steps = .ok s) (h' : Host) (cmd : Command) :
    (s.Idle w cmd → (s.apply w h' cmd).graph = s.graph → (s.apply w h' cmd).undo = s.undo) ↔ ¬s.Costs w h' cmd := by
  have swept := s.swept
  cases verdict : s.refuseStructuralEdit cmd with
  | some why =>
    have refused : s.apply w h' cmd = s := apply_refused (by rw [verdict]; rfl)
    have free : ¬s.Costs w h' cmd := by
      cases cmd with
      | create resource =>
        cases resource with
        | wire a b =>
          rintro ⟨accepted, _⟩
          exact absurd (verdict.symm.trans accepted) nofun
        | _ => exact id
      | update id patch => cases verdict
      | setToken id token => cases verdict
      | _ => exact id
    exact iff_of_true (fun _ _ => by rw [refused]) free
  | none =>
    cases cmd with
    | create resource =>
      cases resource with
      | wire a b => exact createWire_spares_iff verdict
      | _ => exact iff_of_true (fun _ => create_spares verdict nofun) id
    | update id patch => exact update_spares_iff swept
    | setToken id token => exact setToken_spares_iff
    | delete target => exact iff_of_true (fun _ => delete_spares verdict) id
    | duplicate id =>
      refine iff_of_true (fun _ same => ?_) fun costs => costs
      have go : ¬(s.refuseStructuralEdit (.duplicate id)).isSome = true := by simp [verdict]
      unfold apply at same ⊢
      rw [if_neg go] at same ⊢
      exact created_spares (dispatch_undo w h' s nofun) same
    | undo => exact iff_of_true nofun id
    | _ => exact iff_of_true (fun _ same => recorded_spares nofun rfl (.inl rfl) same) id

section Poles

/-- Two volumes and a note. -/
def volumesDocument : Document where
  workspaces := [
    { id := 1
      nodes := [
        { id := 10, kind := .volume "a" false },
        { id := 11, kind := .volume "b" false },
        { id := 12, kind := .note "note" }] }]

/-- Nothing ever compiles. -/
def idleHost : Host := .plain fun _ => none

/-- The note is edited. -/
def noteEdited : List Step := [.command idleHost (.update 12 { text := some "edited" })]

/-- Deleting a node that does not exist records nothing. -/
theorem missing_deleted :
    ∃ s, run .plain idleHost volumesDocument noteEdited = .ok s ∧
      (s.apply .plain idleHost (.delete (.node 99))).undo = s.undo := by
  have seen : (run .plain idleHost volumesDocument noteEdited).toOption.map
      (fun s => (s.graph.kindOf 99, (s.graph.nodes.lookup 99).isSome)) = some (none, false) := by
    decide +kernel
  obtain ⟨s, ran, seen⟩ := ok_of_observed seen
  simp only [Prod.mk.injEq, Option.isSome_eq_false_iff, Option.isNone_iff_eq_none] at seen
  have same : s.apply .plain idleHost (.delete (.node 99)) = s := by
    simp [apply, refuseStructuralEdit, inside, isDerived, recordBefore, snapshot, dispatch, removeAny, removeWith, seen]
  exact ⟨s, ran, (idle_spares_undo_iff ran idleHost (.delete (.node 99))).2 (fun costs => costs) trivial
    (congrArg graph same)⟩

/-- **Two volumes form no wire**, yet asking for one is recorded: the next Undo undoes
nothing, and the edit before it stays. -/
theorem volumes_wired :
    ∃ s, run .plain idleHost volumesDocument noteEdited = .ok s ∧ s.Idle .plain (.create (.wire 10 11)) ∧
      (s.apply .plain idleHost (.create (.wire 10 11))).graph = s.graph ∧
      (s.apply .plain idleHost (.create (.wire 10 11))).undo ≠ s.undo ∧
      ((s.apply .plain idleHost (.create (.wire 10 11))).apply .plain idleHost .undo).graph.noteText.lookup 12 =
        some "edited" := by
  have seen : (run .plain idleHost volumesDocument noteEdited).toOption.map
      (fun s => ((s.refuseStructuralEdit (.create (.wire 10 11))).isSome, s.graph.wired 10 11,
        (Wiring.classify 10 11 (s.graph.classOf 10) (s.graph.classOf 11)).isNone, s.undo.length,
        (s.apply .plain idleHost (.create (.wire 10 11))).undo.length,
        decide (((s.apply .plain idleHost (.create (.wire 10 11))).apply .plain idleHost .undo).graph.noteText.lookup 12 =
          some "edited"))) =
      some (false, false, true, 1, 2, true) := by
    decide +kernel
  obtain ⟨s, ran, seen⟩ := ok_of_observed seen
  simp only [Prod.mk.injEq, Option.isNone_iff_eq_none, decide_eq_true_eq] at seen
  obtain ⟨accepted, apart, formless, one, two, text⟩ := seen
  refine ⟨s, ran, .inr (.inr (.inr formless)), ?_, fun same => ?_, text⟩
  · unfold apply
    rw [if_neg (by simp [accepted])]
    exact (createWire_graph_iff (by simp [apart])).2 (.inl formless)
  · rw [same, one] at two
    exact absurd two (by decide)

end Poles

end Server

end Wk
