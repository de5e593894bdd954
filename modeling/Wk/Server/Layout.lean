/-
# Wk.Server.Layout -- what a layout token can change

A token that grants only `arrange` on nodes is meant to tidy the canvas.  `Facts`
is everything the graph says about one node except where it is drawn, and
`Rearranged` says that two graphs differ in layout alone.  `facts_update` is the one
lemma about the graph: what each update does to the facts of each node.

* `arrange_rearranges`: a command for which `arrange` is enough changes only layout
  exactly when its patch is `Cosmetic` in the state it meets.

Poles: `note_moved` (a move under a layout token), `note_rewritten` (the text of a
note under the same token).
-/
import Wk.Server.Edits

namespace Wk

open Wk.Library

set_option autoImplicit false

/-- What the graph says about a node, its layout apart. -/
structure Facts where
  node : Option (Kind × NodeId)
  args : Option (List String)
  dep : Option String
  name : Option String
  file : Option FileNode
  hostPort : Option Nat
  note : Option String
  midiIn : Option String
  midiOut : Option String
  multicast : Option Mcast
  service : Option HostService
  boundary : Option BoundaryPort
  group : Option GroupNode
  token : Option Bytes
  irohSecret : Option Bytes
  veilidId : Option String
  tabName : Option String
  deriving DecidableEq

namespace Graph

def facts (g : Graph) (n : NodeId) : Facts where
  node := (g.nodes.lookup n).map fun rec => (rec.kind, rec.ws)
  args := g.nodeArgs.lookup n
  dep := g.nodeDeps.lookup n
  name := g.nodeNames.lookup n
  file := g.fileNodes.lookup n
  hostPort := g.hostPorts.lookup n
  note := g.noteText.lookup n
  midiIn := g.midiIns.lookup n
  midiOut := g.midiOuts.lookup n
  multicast := g.multicasts.lookup n
  service := g.hostServices.lookup n
  boundary := g.boundaryPorts.lookup n
  group := g.groups.lookup n
  token := g.nodeTokens.lookup n
  irohSecret := g.irohSecrets.lookup n
  veilidId := g.veilidIds.lookup n
  tabName := g.workspaceNames.lookup n

/-- `g'` is `g` up to positions, sizes, poses and hidden panels. -/
structure Rearranged (g g' : Graph) : Prop where
  wires : g'.toWires = g.toWires
  facts : ∀ n, g'.facts n = g.facts n
  workspaces : g'.workspaces = g.workspaces
  available : g'.available = g.available

theorem lookup_alter {β : Type} (t : Table NodeId β) (id n : NodeId) (f : β → β) :
    (alter t id f).lookup n = if n = id then (t.lookup n).map f else t.lookup n := by
  unfold alter
  by_cases same : n = id
  · subst same
    cases found : t.lookup n with
    | none => simp [found]
    | some v => simp
  · cases found : t.lookup id with
    | none => simp [same]
    | some v => simp [same, AList.lookup_insert_ne]

end Graph

/-- What an update does to the facts of its node. -/
def Facts.update (f : Facts) : Update → Facts
  | .pos _ | .size _ | .pos3d _ | .showPanel | .hidePanel => f
  | .args args => if f.node.isSome then { f with args := some args } else f
  | .port port => { f with hostPort := f.hostPort.map fun _ => port }
  | .text text => { f with note := f.note.map fun _ => text }
  | .bindPath path name =>
    { f with file := f.file.map fun file =>
        match file with
        | .bind .. => .bind name path
        | volume => volume }
  | .midiIn device =>
    if f.node.map Prod.fst = some .midiIn then { f with midiIn := some device } else f
  | .midiOut device =>
    if f.node.map Prod.fst = some .midiOut then { f with midiOut := some device } else f
  | .serviceName name => { f with service := f.service.map fun svc => { svc with name } }
  | .serviceTarget target => { f with service := f.service.map fun svc => { svc with target } }
  | .persist on =>
    { f with file := f.file.map fun file =>
        match file with
        | .volume name data _ => .volume name data on
        | bind => bind }
  | .token token => if f.node.isSome then { f with token := some token } else f
  | .noToken => { f with token := none }
  | .multicast cfg =>
    if f.node.map Prod.fst = some .multicast then { f with multicast := some cfg } else f
  | .group grp => { f with group := f.group.map fun _ => grp }

namespace Graph

variable (g : Graph) (id n : NodeId)

theorem facts_node_isSome : (g.facts n).node.isSome = true ↔ n ∈ g.nodes := by
  simp [facts, AList.lookup_isSome]

theorem facts_node_fst : (g.facts n).node.map Prod.fst = g.kindOf n := by
  simp [facts, Canvas.kindOf, Function.comp_def]

/-- **What an update changes**: the facts of its own node, as `Facts.update` says. -/
theorem facts_update (u : Update) :
    (g.update id u).facts n = if n = id then (g.facts n).update u else g.facts n := by
  by_cases same : n = id
  · subst same
    rw [if_pos rfl]
    cases u with
    | bindPath | persist =>
      exact congrArg (fun file => { g.facts n with file := file }) ((lookup_alter ..).trans (if_pos rfl))
    | pos | size | port | text | serviceName | serviceTarget | noToken | group =>
      simp [update, Facts.update, facts, lookup_alter, Function.comp_def]
    | pos3d | showPanel | hidePanel | args | midiIn | midiOut | token | multicast =>
      simp only [update, Facts.update, facts_node_isSome, facts_node_fst]
      split <;> simp [facts]
  · rw [if_neg same]
    cases u <;> simp only [update] <;>
      (try split) <;> simp [facts, lookup_alter, AList.lookup_insert_ne, AList.lookup_erase_ne, same]

theorem update_tabs (u : Update) :
    (g.update id u).workspaces = g.workspaces ∧ (g.update id u).available = g.available := by
  unfold update
  cases u <;> dsimp only <;> first | exact ⟨rfl, rfl⟩ | (split <;> exact ⟨rfl, rfl⟩)

/-- `g'` differs from `g` in layout, and in the facts of `id` as `change` says. -/
structure Adjusts (id : NodeId) (change : Facts → Facts) (g g' : Graph) : Prop where
  wires : g'.toWires = g.toWires
  facts : ∀ n, g'.facts n = if n = id then change (g.facts n) else g.facts n
  workspaces : g'.workspaces = g.workspaces
  available : g'.available = g.available

namespace Adjusts

variable {g g' g'' : Graph} {id : NodeId} {change more : Facts → Facts}

theorem refl : Adjusts id (fun f => f) g g := ⟨rfl, fun _ => (ite_self _).symm, rfl, rfl⟩

theorem trans (first : Adjusts id change g g') (next : Adjusts id more g' g'') :
    Adjusts id (fun f => more (change f)) g g'' where
  wires := next.wires.trans first.wires
  facts n := by
    rw [next.facts, first.facts]
    split <;> rfl
  workspaces := next.workspaces.trans first.workspaces
  available := next.available.trans first.available

theorem update (g : Graph) (id : NodeId) (u : Update) :
    Adjusts id (fun f => f.update u) g (g.update id u) :=
  ⟨update_toWires g id u, fun n => facts_update g id n u, (update_tabs g id u).1, (update_tabs g id u).2⟩

/-- Two changes that agree on the facts of the node are the same change. -/
theorem congr (adjusts : Adjusts id change g g') (same : change (g.facts id) = more (g.facts id)) :
    Adjusts id more g g' :=
  ⟨adjusts.wires, fun n => by
    rw [adjusts.facts]
    by_cases here : n = id
    · rw [if_pos here, if_pos here, here, same]
    · rw [if_neg here, if_neg here], adjusts.workspaces, adjusts.available⟩

/-- Only layout changed exactly when the change left the facts of the node. -/
theorem rearranged_iff (adjusts : Adjusts id change g g') :
    Rearranged g g' ↔ change (g.facts id) = g.facts id := by
  constructor
  · intro same
    have changed := adjusts.facts id
    rw [if_pos rfl, same.facts] at changed
    exact changed.symm
  · intro same
    refine ⟨adjusts.wires, fun n => ?_, adjusts.workspaces, adjusts.available⟩
    rw [adjusts.facts]
    split
    · next here => rw [here, same]
    · rfl

end Adjusts

end Graph

/-- What a patch that `arrange` is enough for does to the facts of its node. -/
def NodePatch.settle (h : Host) (id : NodeId) (patch : NodePatch) (f : Facts) : Facts :=
  { f with
    note := match patch.text with
      | some text => f.note.map fun _ => text
      | none => f.note
    midiIn := match patch.midiDevice with
      | some want =>
        if f.node.map Prod.fst = some .midiIn then some ((h.openMidi id want).getD want)
        else f.midiIn
      | none => f.midiIn
    midiOut := match patch.midiDevice with
      | some want =>
        if f.node.map Prod.fst = some .midiOut then some ((h.openMidiOutput id want).getD want)
        else f.midiOut
      | none => f.midiOut
    service := f.service.map fun svc =>
      { name := match patch.serviceName with
          | some name => if trim name = "" then svc.name else trim name
          | none => svc.name
        target := match patch.serviceTarget with
          | some target => trim target
          | none => svc.target } }

/-- The patch restates what the node already says wherever it goes beyond layout. -/
structure NodePatch.Cosmetic (h : Host) (g : Graph) (id : NodeId) (patch : NodePatch) : Prop where
  text : ∀ text, patch.text = some text → ∀ old, g.noteText.lookup id = some old → text = old
  midiIn : ∀ want, patch.midiDevice = some want → g.kindOf id = some .midiIn →
    g.midiIns.lookup id = some ((h.openMidi id want).getD want)
  midiOut : ∀ want, patch.midiDevice = some want → g.kindOf id = some .midiOut →
    g.midiOuts.lookup id = some ((h.openMidiOutput id want).getD want)
  name : ∀ name, patch.serviceName = some name → trim name ≠ "" →
    ∀ svc, g.hostServices.lookup id = some svc → trim name = svc.name
  target : ∀ target, patch.serviceTarget = some target →
    ∀ svc, g.hostServices.lookup id = some svc → trim target = svc.target

theorem NodePatch.settle_eq_iff (h : Host) (g : Graph) (id : NodeId) (patch : NodePatch) :
    patch.settle h id (g.facts id) = g.facts id ↔ patch.Cosmetic h g id := by
  have kind := Graph.facts_node_fst g id
  constructor
  · intro same
    have note : (patch.settle h id (g.facts id)).note = g.noteText.lookup id := by rw [same]; rfl
    have midiIn : (patch.settle h id (g.facts id)).midiIn = g.midiIns.lookup id := by rw [same]; rfl
    have midiOut : (patch.settle h id (g.facts id)).midiOut = g.midiOuts.lookup id := by rw [same]; rfl
    have service : (patch.settle h id (g.facts id)).service = g.hostServices.lookup id := by
      rw [same]; rfl
    simp only [settle, kind] at note midiIn midiOut service
    refine ⟨fun text given old found => ?_, fun want given isIn => ?_, fun want given isOut => ?_,
      fun name given named svc found => ?_, fun target given svc found => ?_⟩
    · rw [given] at note
      simpa [Graph.facts, found] using note
    · rw [given] at midiIn
      simpa only [if_pos isIn] using midiIn.symm
    · rw [given] at midiOut
      simpa only [if_pos isOut] using midiOut.symm
    · rw [given] at service
      have kept := congrArg (Option.map HostService.name) service
      simpa [Graph.facts, found, named] using kept
    · rw [given] at service
      have kept := congrArg (Option.map HostService.target) service
      simpa [Graph.facts, found] using kept
  · intro cosmetic
    have note : (patch.settle h id (g.facts id)).note = g.noteText.lookup id := by
      simp only [settle]
      cases given : patch.text with
      | none => rfl
      | some text =>
        cases found : g.noteText.lookup id with
        | none => simp [Graph.facts, found]
        | some old => simp [Graph.facts, found, cosmetic.text text given old found]
    have midiIn : (patch.settle h id (g.facts id)).midiIn = g.midiIns.lookup id := by
      simp only [settle, kind]
      cases given : patch.midiDevice with
      | none => rfl
      | some want =>
        dsimp only
        split
        · next isIn => exact (cosmetic.midiIn want given isIn).symm
        · rfl
    have midiOut : (patch.settle h id (g.facts id)).midiOut = g.midiOuts.lookup id := by
      simp only [settle, kind]
      cases given : patch.midiDevice with
      | none => rfl
      | some want =>
        dsimp only
        split
        · next isOut => exact (cosmetic.midiOut want given isOut).symm
        · rfl
    have service : (patch.settle h id (g.facts id)).service = g.hostServices.lookup id := by
      simp only [settle]
      cases found : g.hostServices.lookup id with
      | none => simp [Graph.facts, found]
      | some svc =>
        simp only [Graph.facts, found, Option.map_some]
        congr 2
        · cases given : patch.serviceName with
          | none => rfl
          | some name =>
            dsimp only
            split
            · rfl
            · next named => exact cosmetic.name name given named svc found
        · cases given : patch.serviceTarget with
          | none => rfl
          | some target => exact cosmetic.target target given svc found
    have whole : patch.settle h id (g.facts id) = { g.facts id with
        note := (patch.settle h id (g.facts id)).note
        midiIn := (patch.settle h id (g.facts id)).midiIn
        midiOut := (patch.settle h id (g.facts id)).midiOut
        service := (patch.settle h id (g.facts id)).service } := rfl
    rw [whole, note, midiIn, midiOut, service]
    rfl

/-- Each of the fields `settle` is about is written by a step of its own. -/
theorem NodePatch.settle_steps (h : Host) (id : NodeId) (patch : NodePatch) (f : Facts) :
    patch.settle h id f =
      let f := patch.text.elim f fun text => f.update (.text text)
      let f := patch.midiDevice.elim f fun want => { f with
        midiIn := if f.node.map Prod.fst = some .midiIn then some ((h.openMidi id want).getD want)
          else f.midiIn
        midiOut := if f.node.map Prod.fst = some .midiOut then
            some ((h.openMidiOutput id want).getD want)
          else f.midiOut }
      let f := patch.serviceName.elim f fun name =>
        if trim name = "" then f else f.update (.serviceName (trim name))
      patch.serviceTarget.elim f fun target => f.update (.serviceTarget (trim target)) := by
  unfold settle
  obtain ⟨node, _, _, _, _, _, note, midiIn, midiOut, _, service⟩ := f
  cases patch.text <;> cases patch.midiDevice <;> cases service <;>
    cases patch.serviceName with
    | none => cases patch.serviceTarget <;> rfl
    | some name =>
      by_cases blank : trim name = ""
      · simp only [if_pos blank, Option.elim_some]
        cases patch.serviceTarget <;> rfl
      · simp only [if_neg blank, Option.elim_some]
        cases patch.serviceTarget <;> rfl

namespace Server

variable {start : Graph}

/-- One more field of a patch. -/
theorem patchField_adjusts {α : Type} {id : NodeId} {g : Graph} {s : Server start}
    {k : Server start → α → Server start} {change : Facts → Facts} {more : α → Facts → Facts}
    (before : Graph.Adjusts id change g s.graph) (field : Option α)
    (each : ∀ v, Graph.Adjusts id (more v) s.graph (k s v).graph) :
    Graph.Adjusts id (fun f => field.elim (change f) fun v => more v (change f))
      g (s.patchField field k).graph := by
  cases field with
  | none => exact before
  | some v => exact before.trans (each v)

theorem setMidiDevice_adjusts (h : Host) (s : Server start) (id : NodeId) (want : String) :
    Graph.Adjusts id
      (fun f => { f with
        midiIn := if f.node.map Prod.fst = some .midiIn then some ((h.openMidi id want).getD want)
          else f.midiIn
        midiOut := if f.node.map Prod.fst = some .midiOut then
            some ((h.openMidiOutput id want).getD want)
          else f.midiOut })
      s.graph (s.setMidiDevice h id want).graph := by
  have kind := Graph.facts_node_fst s.graph id
  unfold setMidiDevice
  split
  · next found =>
      rw [found] at kind
      have named := Graph.Adjusts.update s.graph id (.midiIn want)
      unfold openMidiDevice
      cases h.openMidi id want with
      | none => exact named.congr (by simp [Facts.update, kind])
      | some device =>
        exact (named.trans (.update _ id (.midiIn device))).congr (by simp [Facts.update, kind])
  · next found =>
      rw [found] at kind
      have named := Graph.Adjusts.update s.graph id (.midiOut want)
      unfold openMidiOutDevice
      cases h.openMidiOutput id want with
      | none => exact named.congr (by simp [Facts.update, kind])
      | some device =>
        exact (named.trans (.update _ id (.midiOut device))).congr (by simp [Facts.update, kind])
  · next other noOutput =>
      refine Graph.Adjusts.refl.congr ?_
      rw [kind, if_neg other, if_neg noOutput]

/-- A field of a patch that is about layout. -/
theorem patchField_layout {α : Type} {id : NodeId} {g : Graph} {s : Server start}
    {k : Server start → α → Server start} {change : Facts → Facts}
    (before : Graph.Adjusts id change g s.graph) (field : Option α)
    (each : ∀ v, Graph.Adjusts id (fun f => f) s.graph (k s v).graph) :
    Graph.Adjusts id change g (s.patchField field k).graph :=
  (patchField_adjusts before field each).congr (by cases field <;> rfl)

/-- **A patch under a layout token**: layout, and what `settle` says. -/
theorem updateNode_adjusts (w : World) (h : Host) (s : Server start) (id : NodeId) {patch : NodePatch}
    (args : patch.args = none) (delta : patch.portDelta = none) (port : patch.portSet = none)
    (path : patch.hostPath = none) (persist : patch.persist = none) :
    Graph.Adjusts id (patch.settle h id) s.graph (s.updateNode w h id patch).graph := by
  have perform : ∀ (s : Server start) u, Graph.Adjusts id (fun f => f.update u) s.graph
      (s.perform (.update id u)).graph := fun s u => .update s.graph id u
  have layout : ∀ (s : Server start) u, (∀ f : Facts, f.update u = f) →
      Graph.Adjusts id (fun f => f) s.graph (s.perform (.update id u)).graph :=
    fun s u same => (perform s u).congr (same _)
  have renamed : ∀ (s : Server start) name, Graph.Adjusts id
      (fun f => if trim name = "" then f else f.update (.serviceName (trim name))) s.graph
      (if trim name = "" then s else s.perform (.update id (.serviceName (trim name)))).graph := by
    intro s name
    split
    · exact .refl
    · exact perform s _
  unfold updateNode
  rw [args, delta, port, path, persist]
  have moved := patchField_layout (k := fun s pos => s.perform (.update id (.pos pos)))
    (.refl : Graph.Adjusts id (fun f => f) s.graph s.graph) patch.pos fun pos => layout s _ fun _ => rfl
  have posed := patchField_layout (k := fun s pose => s.perform (.update id (.pos3d pose)))
    moved patch.pos3d fun pose => layout _ _ fun _ => rfl
  have shown := patchField_layout
    (k := fun s shown => s.perform (.update id (if shown then .showPanel else .hidePanel)))
    posed patch.panel3d fun shown => layout _ _ fun f => by cases shown <;> rfl
  have sized := patchField_layout (k := fun s size => s.perform (.update id (.size size)))
    shown patch.size fun size => layout _ _ fun _ => rfl
  have written := patchField_adjusts (k := fun s text => s.perform (.update id (.text text)))
    sized patch.text fun text => perform _ _
  have tuned := patchField_adjusts (k := fun s want => s.setMidiDevice h id want)
    written patch.midiDevice fun want => setMidiDevice_adjusts h _ id want
  have named := patchField_adjusts
    (k := fun s name => if trim name = "" then s else s.perform (.update id (.serviceName (trim name))))
    tuned patch.serviceName fun name => renamed _ name
  have aimed := patchField_adjusts
    (k := fun s target => s.perform (.update id (.serviceTarget (trim target))))
    named patch.serviceTarget fun target => perform _ _
  exact aimed.congr (NodePatch.settle_steps h id patch _).symm

theorem record_graph (s : Server start) (u : Undo) : (s.record u).graph = s.graph := by
  unfold record
  split <;> rfl

/-- Recording the inverse of an update leaves the graph. -/
theorem recordBefore_update_graph (w : World) (h : Host) (s : Server start) (id : NodeId)
    (patch : NodePatch) : (s.recordBefore w h (.update id patch)).graph = s.graph := by
  simp only [recordBefore]
  repeat' split
  all_goals simp only [record_graph]

end Server

namespace Command

/-- Only an update of layout, of a text or of a device is open to a layout token. -/
theorem update_of_required {cmd : Command} (layout : cmd.required = (.node, .arrange)) :
    ∃ id patch, cmd = .update id patch ∧ patch.args = none ∧ patch.portDelta = none ∧
      patch.portSet = none ∧ patch.hostPath = none ∧ patch.persist = none := by
  cases cmd with
  | update id patch =>
    refine ⟨id, patch, rfl, ?_⟩
    simp only [required] at layout
    split at layout
    · cases layout
    · next plain => simpa [and_assoc] using plain
  | create resource => cases resource <;> cases layout
  | delete resource => cases resource <;> cases layout
  | _ => cases layout

/-- The command, an update, goes beyond layout only where it restates what is there. -/
def Cosmetic (h : Host) (g : Graph) : Command → Prop
  | update id patch => patch.Cosmetic h g id
  | _ => True

end Command

namespace Server

variable {start : Graph}

/-- **Layout rights.** A command for which `arrange` on nodes is enough changes only
layout, in whatever state it meets, exactly when it is cosmetic there. -/
theorem arrange_rearranges (w : World) (h : Host) (s : Server start) {cmd : Command}
    (layout : cmd.required = (.node, .arrange)) :
    Graph.Rearranged s.graph (s.apply w h cmd).graph ↔ cmd.Cosmetic h s.graph := by
  obtain ⟨id, patch, rfl, args, delta, port, path, persist⟩ := Command.update_of_required layout
  have applied : s.apply w h (.update id patch) =
      (s.recordBefore w h (.update id patch)).updateNode w h id patch := rfl
  have adjusts := updateNode_adjusts w h (s.recordBefore w h (.update id patch)) id args delta port
    path persist
  rw [recordBefore_update_graph] at adjusts
  rw [applied, adjusts.rearranged_iff, NodePatch.settle_eq_iff]
  rfl

section Poles

/-- One note on one tab. -/
def noteDocument : Document where
  workspaces := [{ id := 1, nodes := [{ id := 13, kind := .note "todo" }] }]

def quietHost : Host := .plain fun _ => none

/-- A note is moved under a layout token. -/
theorem note_moved : ∃ s, run .plain quietHost noteDocument [] = .ok s ∧
    s.graph.noteText.lookup 13 = some "todo" ∧
    Graph.Rearranged s.graph (s.apply .plain quietHost (.update 13 { pos := some (7, 7) })).graph := by
  have seen : (run .plain quietHost noteDocument []).toOption.map
      (fun s => s.graph.noteText.lookup 13) = some (some "todo") := by
    decide
  obtain ⟨s, ran, note⟩ := ok_of_observed seen
  refine ⟨s, ran, note, (arrange_rearranges .plain quietHost s ?_).2 ?_⟩
  · rfl
  · exact ⟨nofun, nofun, nofun, nofun, nofun⟩

/-- The same token rewrites the note's text. -/
theorem note_rewritten : ∃ s, run .plain quietHost noteDocument [] = .ok s ∧
    (Command.update 13 { text := some "done" }).required = (.node, .arrange) ∧
    ¬Graph.Rearranged s.graph
      (s.apply .plain quietHost (.update 13 { text := some "done" })).graph := by
  have seen : (run .plain quietHost noteDocument []).toOption.map
      (fun s => (s.graph.noteText.lookup 13,
        (s.apply .plain quietHost (.update 13 { text := some "done" })).graph.noteText.lookup 13)) =
      some (some "todo", some "done") := by
    decide
  obtain ⟨s, ran, seen⟩ := ok_of_observed seen
  simp only [Prod.mk.injEq] at seen
  refine ⟨s, ran, rfl, fun same => ?_⟩
  have kept : (s.apply .plain quietHost (.update 13 { text := some "done" })).graph.noteText.lookup 13 =
      s.graph.noteText.lookup 13 := congrArg Facts.note (same.facts 13)
  rw [seen.1, seen.2] at kept
  exact absurd kept (by decide)

end Poles

end Server

end Wk
