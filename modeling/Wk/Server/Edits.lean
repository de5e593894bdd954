/-
# Wk.Server.Edits -- what each edit leaves alone

One lemma per graph operation and question: an operation on wires leaves the
canvas, an operation on nodes leaves the wires, a removal takes exactly one record.
The invariants of the later modules are read off these, so none of them unfolds an
operation of the graph twice.
-/
import Wk.Server.Apply

namespace Wk

open Wk.Library

set_option autoImplicit false

namespace Canvas

theorem mem_nodes_of_kindOf {c : Canvas} {id : NodeId} {kind : Kind}
    (found : c.kindOf id = some kind) : id ∈ c.nodes := by
  obtain ⟨rec, found, _⟩ := Option.map_eq_some_iff.1 found
  exact Table.mem_of_lookup found

theorem exists_kindOf {c : Canvas} {id : NodeId} (present : id ∈ c.nodes) :
    ∃ kind, c.kindOf id = some kind := by
  obtain ⟨rec, found⟩ := Table.mem_iff_lookup.1 present
  exact ⟨rec.kind, by rw [kindOf, found]; rfl⟩

/-- Nodes of the same kinds are the same nodes. -/
theorem mem_nodes_congr {c c' : Canvas} {id : NodeId} (same : c'.kindOf id = c.kindOf id) :
    id ∈ c'.nodes ↔ id ∈ c.nodes := by
  constructor
  · intro present
    obtain ⟨kind, found⟩ := exists_kindOf present
    exact mem_nodes_of_kindOf (same.symm.trans found)
  · intro present
    obtain ⟨kind, found⟩ := exists_kindOf present
    exact mem_nodes_of_kindOf (same.trans found)

end Canvas

namespace Graph

variable (g : Graph)

/-! ## Wires leave the canvas -/

@[simp] theorem setLinks_toCanvas (r : WireRel) (l : List Pair) :
    (g.setLinks r l).toCanvas = g.toCanvas := rfl

@[simp] theorem toggle_toCanvas (r : WireRel) (a b : NodeId) :
    (g.toggle r a b).toCanvas = g.toCanvas := rfl

@[simp] theorem dropFrom_toCanvas (r : WireRel) (id : NodeId) :
    (g.dropFrom r id).toCanvas = g.toCanvas := rfl

@[simp] theorem dropTo_toCanvas (r : WireRel) (id : NodeId) :
    (g.dropTo r id).toCanvas = g.toCanvas := rfl

@[simp] theorem dropOn_toCanvas (r : WireRel) (id : NodeId) :
    (g.dropOn r id).toCanvas = g.toCanvas := rfl

@[simp] theorem pruneMountPaths_toCanvas : g.pruneMountPaths.toCanvas = g.toCanvas := rfl

@[simp] theorem pruneServePorts_toCanvas : g.pruneServePorts.toCanvas = g.toCanvas := rfl

@[simp] theorem pruneMidiChannels_toCanvas : g.pruneMidiChannels.toCanvas = g.toCanvas := rfl

@[simp] theorem mintNet_toCanvas (key : Pair) (net : NodeId) :
    (g.mintNet key net).toCanvas = g.toCanvas := rfl

@[simp] theorem dropNet_toCanvas (key : Pair) : (g.dropNet key).toCanvas = g.toCanvas := by
  unfold dropNet
  split <;> rfl

@[simp] theorem partNet_toCanvas (id : NodeId) (key : Pair) :
    (g.partNet id key).toCanvas = g.toCanvas := by
  unfold partNet
  split <;> rfl

@[simp] theorem pruneAppLinkNet_toCanvas (order : List Pair → List Pair) (id : NodeId) :
    (g.pruneAppLinkNet order id).toCanvas = g.toCanvas := by
  unfold pruneAppLinkNet
  refine List.foldlRecOn (motive := fun g' : Graph => g'.toCanvas = g.toCanvas) _ _ rfl ?_
  intro g' same key _
  rw [partNet_toCanvas, same]

/-! ## Nodes leave the wires -/

@[simp] theorem place_toWires (id ws : NodeId) (pos size : Vec2) (payload : Payload) :
    (g.place id ws pos size payload).toWires = g.toWires := by
  cases payload with
  | app dep name args token => cases token <;> rfl
  | _ => rfl

@[simp] theorem forget_toWires (id : NodeId) : (g.forget id).toWires = g.toWires := rfl

@[simp] theorem update_toWires (id : NodeId) (u : Update) : (g.update id u).toWires = g.toWires := by
  cases u <;> simp only [update] <;> first | rfl | (split <;> rfl)

@[simp] theorem addTab_toWires (index : Nat) (id : NodeId) :
    (g.addTab index id).toWires = g.toWires := by
  unfold addTab
  split <;> rfl

@[simp] theorem removeTab_toWires (id : NodeId) : (g.removeTab id).toWires = g.toWires := by
  unfold removeTab
  split <;> rfl

/-! ## Records -/

/-- Placing a node adds exactly its record. -/
@[simp] theorem place_nodes (id ws : NodeId) (pos size : Vec2) (payload : Payload) :
    (g.place id ws pos size payload).nodes =
      g.nodes.insert id { kind := payload.kind, ws, pos, size } := by
  cases payload with
  | app dep name args token => cases token <;> rfl
  | _ => rfl

theorem place_kindOf (id ws : NodeId) (pos size : Vec2) (payload : Payload) (n : NodeId) :
    (g.place id ws pos size payload).kindOf n = if n = id then some payload.kind else g.kindOf n := by
  rw [Canvas.kindOf, place_nodes, Table.lookup_insert_eq]
  split <;> rfl

@[simp] theorem forget_nodes (id : NodeId) : (g.forget id).nodes = g.nodes.erase id := rfl

theorem forget_kindOf (id n : NodeId) :
    (g.forget id).kindOf n = if n = id then none else g.kindOf n := by
  rw [Canvas.kindOf, forget_nodes, Table.lookup_erase_eq]
  split <;> rfl

/-- Rewriting a row in place keeps the keys. -/
theorem mem_alter {α β : Type} [DecidableEq α] {t : Table α β} {key k : α} {f : β → β} :
    k ∈ alter t key f ↔ k ∈ t := by
  unfold alter
  split
  · next v found =>
      rw [AList.mem_insert]
      constructor
      · rintro (rfl | member)
        · exact Table.mem_of_lookup found
        · exact member
      · exact .inr
  · rfl

theorem alter_lookup {α β : Type} [DecidableEq α] (t : Table α β) (key k : α) (f : β → β) :
    (alter t key f).lookup k = if k = key then (t.lookup k).map f else t.lookup k := by
  unfold alter
  split
  · next v found =>
      rw [Table.lookup_insert_eq]
      split
      · next same => rw [same, found]; rfl
      · rfl
  · next absent =>
      split
      · next same => rw [same, absent]; rfl
      · rfl

/-- An update keeps every node's kind. -/
@[simp] theorem update_kindOf (id n : NodeId) (u : Update) : (g.update id u).kindOf n = g.kindOf n := by
  cases u with
  | pos p =>
    simp only [update, Canvas.kindOf, alter_lookup]
    split <;> simp [Option.map_map, Function.comp_def]
  | size p =>
    simp only [update, Canvas.kindOf, alter_lookup]
    split <;> simp [Option.map_map, Function.comp_def]
  | _ =>
    simp only [update]
    first
      | rfl
      | (split <;> rfl)

theorem mem_update_nodes (id n : NodeId) (u : Update) : n ∈ (g.update id u).nodes ↔ n ∈ g.nodes :=
  Canvas.mem_nodes_congr (update_kindOf g id n u)

@[simp] theorem dropWires_toCanvas (order : List Pair → List Pair) (id : NodeId) :
    (g.dropWires order id).toCanvas = g.toCanvas := by
  unfold dropWires
  split <;> simp

@[simp] theorem dropOwn_toWires (id : NodeId) : (g.dropOwn id).toWires = g.toWires := by
  unfold dropOwn
  split <;> rfl

@[simp] theorem dropOwn_nodes (id : NodeId) : (g.dropOwn id).nodes = g.nodes := by
  unfold dropOwn
  split <;> rfl

/-- Stripping a node's wires keeps every record. -/
@[simp] theorem unwire_nodes (order : List Pair → List Pair) (id : NodeId) :
    (g.unwire order id).nodes = g.nodes := by
  simp [unwire]

@[simp] theorem unwire_toWires (order : List Pair → List Pair) (id : NodeId) :
    (g.unwire order id).toWires = (g.dropWires order id).toWires :=
  dropOwn_toWires _ id

/-- A removal takes exactly the one record. -/
theorem remove_kindOf (order : List Pair → List Pair) (id n : NodeId) :
    (g.remove order id).kindOf n = if n = id then none else g.kindOf n := by
  unfold remove
  split
  · rw [forget_kindOf, Canvas.kindOf, unwire_nodes]
    rfl
  · next absent =>
      split
      · next same =>
          rw [same, Canvas.kindOf, AList.lookup_eq_none.2 absent]
          rfl
      · rfl

/-- A removal leaves every other node. -/
theorem mem_remove_nodes {order : List Pair → List Pair} {id n : NodeId} (present : n ∈ g.nodes)
    (other : n ≠ id) : n ∈ (g.remove order id).nodes :=
  (Canvas.mem_nodes_congr (by rw [remove_kindOf, if_neg other])).2 present

theorem remove_toWires {order : List Pair → List Pair} {id : NodeId} (present : id ∈ g.nodes) :
    (g.remove order id).toWires = (g.dropWires order id).toWires := by
  rw [remove, if_pos present, forget_toWires, unwire_toWires]

theorem remove_absent {order : List Pair → List Pair} {id : NodeId} (absent : id ∉ g.nodes) :
    g.remove order id = g := if_neg absent

/-! ## Links -/

theorem setLinks_links (r r' : WireRel) (l : List Pair) :
    (g.setLinks r l).links r' = if r' = r then l else g.links r' := by
  simp only [setLinks, Function.update_apply]

end Graph

end Wk
