/-
# Wk.Cli.Configure -- which node a call configures

The Create of a call makes one node, and at most one more command of the call configures one.
They are the same node only where the call finds its own: `Meets` says of a snapshot that it
does, `Careful` of every step of a run.

* `Settings`: what a call can set on a node, and what its commands leave of the others'.
* `Call.follows_spec`: the one command that sets what is asked; for a MIDI device there is none.
* `Session.configures`: in a careful run the call that reports success has set what was asked on the
  node that it made, and none of its commands has changed another.

Poles: `crossed_misses` (another client's node is taken for the call's own), `configures_note`.
-/
import Wk.Cli
import Wk.Server.Effects
import Wk.Server.Layout

namespace Wk

open Wk.Library

set_option autoImplicit false

/-! ## Settings -/

/-- What the two commands can set on a node. -/
structure Settings where
  args : Option (List String)
  file : Option FileNode
  port : Option Nat
  text : Option String
  midiIn : Option String
  midiOut : Option String
  service : Option HostService
  mcast : Option Mcast
  deriving DecidableEq, Repr

def Canvas.settings (c : Canvas) (id : NodeId) : Settings where
  args := c.nodeArgs.lookup id
  file := c.fileNodes.lookup id
  port := c.hostPorts.lookup id
  text := c.noteText.lookup id
  midiIn := c.midiIns.lookup id
  midiOut := c.midiOuts.lookup id
  service := c.hostServices.lookup id
  mcast := c.multicasts.lookup id

/-- What a call asks of its node. -/
inductive Setting where
  | args (args : List String)
  | hostPath (path : String)
  | port (n : Nat)
  | text (text : String)
  | midiIn (device : String)
  | midiOut (device : String)
  | persist
  | service (name : Option String) (target : String)
  | mcast (cfg : Mcast)
  deriving DecidableEq, Repr

def FileNode.hostPath : FileNode → Option String
  | bind _ path => some path
  | volume .. => none

def FileNode.persists : FileNode → Bool
  | volume _ _ persist => persist
  | bind .. => false

namespace Setting

/-- What is asked is there. -/
def On (at_ : Settings) : Setting → Prop
  | args words => at_.args = some words
  | hostPath path => at_.file.bind FileNode.hostPath = some path
  | port n => at_.port = some n
  | text t => at_.text = some t
  | midiIn device => at_.midiIn = some device
  | midiOut device => at_.midiOut = some device
  | persist => at_.file.map FileNode.persists = some true
  | service name target => ∃ svc, at_.service = some svc ∧ svc.target = target ∧ ∀ n ∈ name, svc.name = n
  | mcast cfg => at_.mcast = some cfg

/-- What the call sends says what is asked: the arguments are words, a port is not 0, and a MIDI
device is not sent. -/
def Said : Setting → Prop
  | args words => splitWhitespace (" ".intercalate words) = words
  | port n => n ≠ 0
  | midiIn _ | midiOut _ => False
  | _ => True

/-- The node has such a setting, and a bridge starts with the new one. -/
def Open (h : Host) (g : Graph) (id : NodeId) : Setting → Prop
  | args _ => id ∈ g.nodes
  | hostPath _ => ∃ name path, g.fileNodes.lookup id = some (.bind name path)
  | port _ => id ∈ g.hostPorts
  | text _ => id ∈ g.noteText
  | midiIn _ | midiOut _ => True
  | persist => ∃ name data persists, g.fileNodes.lookup id = some (.volume name data persists)
  | service .. => id ∈ g.hostServices
  | mcast cfg => g.kindOf id = some .multicast ∧
      h.multicastBridge (((g.netLinks.find? fun l => l.1 = id).map Prod.snd).getD id) cfg = true

end Setting

/-- What the arguments or the value of a call ask for, less the blanks around them. -/
def Call.asks : Call → Option Setting
  | add _ args => if args = [] then none else some (.args args)
  | create .bindMount value _ => value.map fun v => .hostPath (trim v)
  | create .port value _ => (value.bind fun v => parseU16 v.toList).map .port
  | create .note value _ => value.map .text
  | create .midiIn value _ => value.map .midiIn
  | create .midiOut value _ => value.map .midiOut
  | create .volume _ persist => if persist then some .persist else none
  | create .hostService value _ =>
    value.map fun v =>
      match splitOnce '=' v with
      | some (name, target) => .service ((some (trim name)).filter fun n => n ≠ "") (trim target)
      | none => .service none (trim v)
  | create .multicast value _ =>
    (value.filter fun v => trim v ≠ "").map fun v =>
      .mcast { iface := ((mcastValue v).1.map trim).filter fun i => i ≠ "", groups := (mcastValue v).2 }
  | create .. => none

/-! ## What the commands of a call leave -/

/-- An edit about a node leaves the settings of the others. -/
theorem NodeEdit.settings {id n : NodeId} {spot : Option Spot} {g : Graph} {e : Edit} (about : NodeEdit id spot g e)
    (other : n ≠ id) : (e.apply g).settings n = g.settings n := by
  cases e with
  | place m ws pos size payload =>
    obtain ⟨rfl, -⟩ := about
    cases payload with
    | app dep name args token =>
      cases token <;> simp [Edit.apply, Graph.place, Canvas.settings, other]
    | _ => simp [Edit.apply, Graph.place, Canvas.settings, other]
  | pose m pos3d panel3d => cases pos3d <;> cases panel3d <;> rfl
  | update m u =>
    obtain ⟨rfl, -⟩ := about
    cases u <;> simp only [Edit.apply, Graph.update] <;> (try split) <;>
      simp [Canvas.settings, Graph.alter_lookup, other]
  | pruneMountPaths | pruneServePorts => rfl
  | _ => cases about

theorem NodeEdit.mem_nodes {id n : NodeId} {spot : Option Spot} {g : Graph} {e : Edit} (about : NodeEdit id spot g e)
    (other : n ≠ id) : n ∈ (e.apply g).nodes ↔ n ∈ g.nodes := by
  cases e with
  | place m ws pos size payload =>
    obtain ⟨rfl, -⟩ := about
    simp [Edit.apply, other]
  | pose m pos3d panel3d => cases pos3d <;> cases panel3d <;> rfl
  | update m u => exact Graph.mem_update_nodes g m n u
  | pruneMountPaths | pruneServePorts => rfl
  | _ => cases about

namespace Server

variable {start : Graph} {s s' : Server start} {id n : NodeId} {spot : Option Spot} (w : World) (h : Host)

theorem Becomes.settings (became : Becomes (NodeEdit id spot) s s') (other : n ≠ id) :
    s'.graph.settings n = s.graph.settings n :=
  became.leads.keeps (P := fun g => g.settings n = s.graph.settings n)
    (fun _ _ about same => (about.settings other).trans same) rfl

theorem Becomes.mem_nodes (became : Becomes (NodeEdit id spot) s s') (other : n ≠ id) :
    n ∈ s'.graph.nodes ↔ n ∈ s.graph.nodes :=
  became.leads.keeps (P := fun g => n ∈ g.nodes ↔ n ∈ s.graph.nodes)
    (fun _ _ about same => (about.mem_nodes other).trans same) .rfl

theorem mem_place (s : Server start) (id ws : NodeId) (pos size : Vec2) (payload : Payload) :
    id ∈ (s.place id ws pos size payload).graph.nodes := by
  simp [place, Edit.apply]

theorem mem_openMidiDevice (want : String) (placed : n ∈ s.graph.nodes) :
    n ∈ (s.openMidiDevice h id want).graph.nodes := by
  simp only [openMidiDevice]
  split
  · next name _ => exact (Graph.mem_update_nodes s.graph id n (.midiIn name)).2 placed
  · exact placed

theorem mem_openMidiOutDevice (want : String) (placed : n ∈ s.graph.nodes) :
    n ∈ (s.openMidiOutDevice h id want).graph.nodes := by
  simp only [openMidiOutDevice]
  split
  · next name _ => exact (Graph.mem_update_nodes s.graph id n (.midiOut name)).2 placed
  · exact placed

/-- A creation places its node, or leaves the graph. -/
theorem createNode_places (s : Server start) (kind : NodeKind) (pos : Vec2) (ws : NodeId) :
    w.mint s.minted ∈ (s.createNode w h kind pos ws).graph.nodes ∨ (s.createNode w h kind pos ws).graph = s.graph := by
  cases kind with
  | app dep =>
    simp only [createNode]
    split
    · exact .inl (mem_place ..)
    · exact .inr rfl
  | iroh =>
    simp only [createNode, addIrohNode, createUplink]
    split
    · exact .inl (mem_place ..)
    · exact .inr rfl
  | veilid =>
    simp only [createNode, addVeilidNode, createVeilidUplink]
    split
    · exact .inl (mem_place ..)
    · exact .inr rfl
  | multicast =>
    simp only [createNode, addMulticastNode, createMulticast]
    split
    · exact .inl (mem_place ..)
    · exact .inr rfl
  | midiIn => exact .inl (mem_openMidiDevice h "" (mem_place ..))
  | midiOut => exact .inl (mem_openMidiOutDevice h "" (mem_place ..))
  | _ => exact .inl (mem_place ..)

theorem record_if_graph (s : Server start) (u : Undo) (p : Prop) [Decidable p] :
    (if p then s else s.record u).graph = s.graph := by
  split
  · rfl
  · exact record_graph s u

/-- What a Create leaves of the graph. -/
theorem apply_create_graph (s : Server start) (kind : NodeKind) (pos : Vec2) (ws : NodeId) :
    (s.apply w h (.create (.node kind pos ws))).graph = s.graph ∨
      (s.apply w h (.create (.node kind pos ws))).graph = (s.createNode w h kind pos ws).graph := by
  by_cases refused : (s.refuseStructuralEdit (.create (.node kind pos ws))).isSome = true
  · exact .inl (by rw [apply, if_pos refused])
  · refine .inr ?_
    rw [apply, if_neg refused]
    exact record_if_graph ..

/-- A Create makes the node that is minted, if one, and leaves the others' settings. -/
theorem apply_create (s : Server start) (kind : NodeKind) (pos : Vec2) (ws : NodeId)
    (fresh : w.mint s.minted ∉ s.graph.nodes) :
    let g := (s.apply w h (.create (.node kind pos ws))).graph
    ∀ n, (g.nodes.keys.find? fun id => id ∉ s.graph.nodes) ≠ some n → g.settings n = s.graph.settings n := by
  intro g n other
  rcases apply_create_graph w h s kind pos ws with same | same
  · exact congrArg (fun g : Graph => g.settings n) same
  have became := createNode_becomes w h s kind pos ws
  have made : g = (s.createNode w h kind pos ws).graph := same
  rw [made] at other ⊢
  by_cases here : n = w.mint s.minted
  · subst here
    rcases createNode_places w h s kind pos ws with placed | kept
    · -- No other key is new.
      have first : ((s.createNode w h kind pos ws).graph.nodes.keys.find? fun id => id ∉ s.graph.nodes) =
          some (w.mint s.minted) := by
        cases found : (s.createNode w h kind pos ws).graph.nodes.keys.find? fun id => id ∉ s.graph.nodes with
        | none => exact absurd (List.find?_eq_none.1 found _ (AList.mem_keys.1 placed)) (by simpa using fresh)
        | some id =>
          have new : id ∉ s.graph.nodes := by simpa using List.find?_some found
          have there : id ∈ (s.createNode w h kind pos ws).graph.nodes := AList.mem_keys.2 (List.mem_of_find?_eq_some found)
          exact congrArg some (by_contra fun apart => new ((became.mem_nodes apart).1 there))
      exact absurd first other
    · rw [kept]
  · exact became.settings here

/-- The command configures `id`, by a patch or as a bridge. -/
def Concerns (id : NodeId) (cmd : Command) : Prop :=
  (∃ patch, cmd = .update id patch) ∨ ∃ iface groups, cmd = .setMulticast id iface groups

/-- It leaves the others' settings. -/
theorem apply_concerns {cmd : Command} (about : Concerns id cmd) (s : Server start) (other : n ≠ id) :
    (s.apply w h cmd).graph.settings n = s.graph.settings n := by
  rcases about with ⟨patch, rfl⟩ | ⟨iface, groups, rfl⟩
  · have became : Becomes (NodeEdit id none) _ (s.apply w h (.update id patch)) := updateNode_becomes w h _ patch
    rw [became.settings other, recordBefore_update_graph]
  · have became : Becomes (NodeEdit id none) s (s.apply w h (.setMulticast id iface groups)) :=
      setMulticastConfig_becomes h s _
    exact became.settings other

/-- A command that sets what is asked on `id`, where that is open to it. -/
def Sets (id : NodeId) (setting : Setting) (cmd : Command) : Prop :=
  ∀ (start : Graph) (w : World) (h : Host) (s : Server start), setting.Open h s.graph id →
    setting.On ((s.apply w h cmd).graph.settings id)

section Sets

variable {setting : Setting} {patch : NodePatch}

theorem sets_update (sets : ∀ (start : Graph) (w : World) (h : Host) (s : Server start), setting.Open h s.graph id →
    setting.On ((s.updateNode w h id patch).graph.settings id)) : Sets id setting (.update id patch) := by
  intro start w h s open_
  rw [← recordBefore_update_graph w h s id patch] at open_
  exact sets start w h _ open_

theorem sets_args {words : List String} (said : splitWhitespace (" ".intercalate words) = words) :
    Sets id (.args words) (.update id { args := some (" ".intercalate words) }) := by
  refine sets_update fun start w h s open_ => ?_
  have present : id ∈ s.graph.nodes := open_
  have here : s.nodeExists id = true := decide_eq_true present
  have set : (s.updateNode w h id { args := some (" ".intercalate words) }).graph = s.graph.update id (.args words) := by
    show (s.setNodeArgs id (" ".intercalate words)).graph = _
    rw [setNodeArgs, if_pos here, said]
    rfl
  rw [set, Graph.update, if_pos present]
  simp [Setting.On, Canvas.settings]

theorem sets_hostPath (path : String) : Sets id (.hostPath (trim path)) (.update id { hostPath := some path }) := by
  refine sets_update fun start w h s open_ => ?_
  obtain ⟨name, old, found⟩ := open_
  have set : (s.updateNode w h id { hostPath := some path }).graph =
      s.graph.update id (.bindPath (trim path) (hostFileName (trim path))) := by
    show (s.setBindPath w h id path).graph = _
    simp only [setBindPath, found]
    rfl
  rw [set]
  simp [Setting.On, Canvas.settings, Graph.update, Graph.alter_lookup, found, FileNode.hostPath]

theorem sets_port {port : Nat} (said : port ≠ 0) : Sets id (.port port) (.update id { portSet := some port }) := by
  refine sets_update fun start w h s open_ => ?_
  obtain ⟨cur, found⟩ := Table.mem_iff_lookup.1 open_
  show Setting.On (Canvas.settings (s.setHostPort id port).graph.toCanvas id) _
  by_cases same : port = cur
  · have kept : s.setHostPort id port = s := by simp [setHostPort, found, same]
    rw [kept]
    exact found.trans (congrArg some same.symm)
  · have set : (s.setHostPort id port).graph = (s.graph.update id (.port port)).pruneServePorts := by
      simp only [setHostPort, found, same, said, decide_false, Bool.or_self, Bool.false_eq_true, if_false]
      rfl
    rw [set, Graph.pruneServePorts_toCanvas]
    simp [Setting.On, Canvas.settings, Graph.update, Graph.alter_lookup, found]

theorem sets_text (text : String) : Sets id (.text text) (.update id { text := some text }) := by
  refine sets_update fun start w h s open_ => ?_
  obtain ⟨old, found⟩ := Table.mem_iff_lookup.1 open_
  have set : (s.updateNode w h id { text := some text }).graph = s.graph.update id (.text text) := rfl
  rw [set]
  simp [Setting.On, Canvas.settings, Graph.update, Graph.alter_lookup, found]

theorem sets_persist : Sets id .persist (.update id { persist := some true }) := by
  refine sets_update fun start w h s open_ => ?_
  obtain ⟨name, data, old, found⟩ := open_
  have set : (s.updateNode w h id { persist := some true }).graph = s.graph.update id (.persist true) := rfl
  rw [set]
  simp [Setting.On, Canvas.settings, Graph.update, Graph.alter_lookup, found, FileNode.persists]

theorem sets_target (target : String) : Sets id (.service none (trim target)) (.update id { serviceTarget := some target }) := by
  refine sets_update fun start w h s open_ => ?_
  obtain ⟨old, found⟩ := Table.mem_iff_lookup.1 open_
  have set : (s.updateNode w h id { serviceTarget := some target }).graph = s.graph.update id (.serviceTarget (trim target)) := rfl
  rw [set]
  simp [Setting.On, Canvas.settings, Graph.update, Graph.alter_lookup, found]

/-- A blank name is not taken. -/
theorem sets_service (name target : String) :
    Sets id (.service ((some (trim name)).filter fun n => n ≠ "") (trim target))
      (.update id { serviceName := some name, serviceTarget := some target }) := by
  refine sets_update fun start w h s open_ => ?_
  obtain ⟨old, found⟩ := Table.mem_iff_lookup.1 open_
  have set : (s.updateNode w h id { serviceName := some name, serviceTarget := some target }).graph =
      ((if trim name = "" then s else s.perform (.update id (.serviceName (trim name)))).perform
        (.update id (.serviceTarget (trim target)))).graph := by
    simp only [updateNode, patchField]
  rw [set]
  by_cases blank : trim name = ""
  · simp [Setting.On, Canvas.settings, Edit.apply, Graph.update, Graph.alter_lookup, found, blank]
  · simp [Setting.On, Canvas.settings, Edit.apply, Graph.update, Graph.alter_lookup, found, blank]

theorem sets_mcast (iface : Option String) (groups : List String) :
    Sets id (.mcast { iface := (iface.map trim).filter fun i => i ≠ "", groups }) (.setMulticast id iface groups) := by
  intro start w h s open_
  obtain ⟨kind, starts⟩ := open_
  have set : (s.apply w h (.setMulticast id iface groups)).graph =
      s.graph.update id (.multicast { iface := (iface.map trim).filter fun i => i ≠ "", groups }) := by
    show (s.setMulticastConfig h id _).graph = _
    rw [setMulticastConfig, if_neg (by simp [kind]), if_pos starts]
    rfl
  rw [set, Graph.update, if_pos kind]
  simp [Setting.On, Canvas.settings]

end Sets

end Server

namespace Call

variable {c : Call} {setting : Setting}

/-- What is asked and said is set by the one command that follows. -/
theorem follows_spec (asked : c.asks = some setting) (said : setting.Said) (id : NodeId) :
    ∃ cmd, c.follows id = .ok [cmd] ∧ Server.Concerns id cmd ∧ Server.Sets id setting cmd := by
  have patched (patch : NodePatch) : Server.Concerns id (.update id patch) := .inl ⟨patch, rfl⟩
  cases c with
  | add name args =>
    simp only [asks] at asked
    split at asked
    · cases asked
    · cases asked
      exact ⟨_, rfl, patched _, Server.sets_args said⟩
  | create kind value persist =>
    cases kind with
    | bindMount =>
      obtain ⟨v, rfl, rfl⟩ := Option.map_eq_some_iff.1 asked
      exact ⟨_, rfl, patched _, Server.sets_hostPath v⟩
    | port =>
      obtain ⟨n, parsed, rfl⟩ := Option.map_eq_some_iff.1 asked
      obtain ⟨v, rfl, number⟩ := Option.bind_eq_some_iff.1 parsed
      have parsed : parseU16 v.toList = some n := number
      refine ⟨.update id { portSet := some n }, ?_, patched _, Server.sets_port said⟩
      simp only [follows, NodeKind.seed, parsed]
      rfl
    | note =>
      obtain ⟨v, rfl, rfl⟩ := Option.map_eq_some_iff.1 asked
      exact ⟨_, rfl, patched _, Server.sets_text v⟩
    | midiIn =>
      obtain ⟨v, rfl, rfl⟩ := Option.map_eq_some_iff.1 asked
      exact said.elim
    | midiOut =>
      obtain ⟨v, rfl, rfl⟩ := Option.map_eq_some_iff.1 asked
      exact said.elim
    | volume =>
      simp only [asks] at asked
      split at asked
      · next persists =>
          cases asked
          subst persists
          exact ⟨_, rfl, patched _, Server.sets_persist⟩
      · cases asked
    | hostService =>
      obtain ⟨v, rfl, rfl⟩ := Option.map_eq_some_iff.1 asked
      cases parts : splitOnce '=' v with
      | none =>
        refine ⟨.update id { serviceTarget := some v }, ?_, patched _, Server.sets_target v⟩
        simp only [follows, NodeKind.seed, parts]
        rfl
      | some both =>
        refine ⟨.update id { serviceName := some both.1, serviceTarget := some both.2 }, ?_, patched _, Server.sets_service both.1 both.2⟩
        simp only [follows, NodeKind.seed, parts]
        rfl
    | multicast =>
      obtain ⟨v, given, rfl⟩ := Option.map_eq_some_iff.1 asked
      refine ⟨.setMulticast id (mcastValue v).1 (mcastValue v).2, ?_, .inr ⟨_, _, rfl⟩, Server.sets_mcast _ _⟩
      simp only [follows, NodeKind.seed, mcastFollows, given]
      rfl
    | _ => cases asked

/-- What follows is about the node that the call has found. -/
theorem follows_about {id : NodeId} {cmds : List Command} (follows : c.follows id = .ok cmds) :
    ∀ cmd ∈ cmds, Server.Concerns id cmd := by
  intro cmd member
  cases c with
  | add name args =>
    cases follows
    exact .inl ⟨_, List.mem_singleton.1 member⟩
  | create kind value persist =>
    simp only [Call.follows] at follows
    cases seeded : kind.seed value persist with
    | error e => rw [seeded] at follows; cases follows
    | ok patch =>
      rw [seeded] at follows
      cases follows
      rcases List.mem_append.1 member with patched | bridge
      · split at patched
        · cases patched
        · exact .inl ⟨patch, List.mem_singleton.1 patched⟩
      · split at bridge
        · simp only [mcastFollows] at bridge
          split at bridge
          · exact .inr ⟨_, _, List.mem_singleton.1 bridge⟩
          · cases bridge
        · cases bridge

/-- Where nothing is asked, nothing follows. -/
theorem follows_none (asked : c.asks = none) (looks : ∀ name, c ≠ .add name []) (id : NodeId) :
    (∃ e, c.follows id = .error e) ∨ c.follows id = .ok [] := by
  cases c with
  | add name args =>
    simp only [asks] at asked
    split at asked
    · next empty => exact absurd (congrArg _ empty) (looks name)
    · cases asked
  | create kind value persist =>
    cases kind with
    | port =>
      cases value with
      | none => exact .inr rfl
      | some v =>
        have bad : parseU16 v.toList = none := by simpa [asks] using asked
        exact .inl ⟨s!"invalid port {debugStr v}", by simp only [follows, NodeKind.seed, bad]; rfl⟩
    | bindMount | note | midiIn | midiOut | hostService =>
      cases value with
      | none => exact .inr rfl
      | some v => cases asked
    | volume =>
      cases persist with
      | false => exact .inr rfl
      | true => cases asked
    | multicast =>
      have blank := Option.map_eq_none_iff.1 asked
      refine .inr ?_
      simp only [follows, NodeKind.seed, mcastFollows, blank]
      rfl
    | _ => exact .inr rfl

/-! ## The call finds its own node -/

/-- `a` is the first of a list that `p` holds of. -/
def IsFirst {α : Type} (p : α → Prop) (l : List α) (a : α) : Prop :=
  ∃ before after, l = before ++ a :: after ∧ p a ∧ ∀ b ∈ before, ¬p b

theorem find?_eq_some_iff {α : Type} {p : α → Prop} [DecidablePred p] {l : List α} {a : α} :
    (l.find? fun b => p b) = some a ↔ IsFirst p l a := by
  rw [List.find?_eq_some_iff_append]
  simp only [decide_eq_true_eq, Bool.not_eq_true', decide_eq_false_iff_not, IsFirst]
  constructor
  · rintro ⟨here, before, after, split, none'⟩
    exact ⟨before, after, split, here, none'⟩
  · rintro ⟨before, after, split, here, none'⟩
    exact ⟨here, before, after, split, none'⟩

/-- The call finds the node that its Create made, if one: it is the last that has the dependency's
name and no arguments, or it is listed before the others that were not there; and one is listed when
the deadline has passed. -/
def Meets (snap : IpcSnapshot) (before : List NodeId) (late : Bool) (made : Option NodeId) : Call → Prop
  | add name _ =>
    ∃ n, made = some n.id ∧ IsFirst (fun n : NodeInfo => n.name = name ∧ n.args = []) snap.nodes.reverse n
  | create .. =>
    (∀ id, IsFirst (fun id => id ∉ before) (snap.nodes.map NodeInfo.id) id → made = some id) ∧
      (late = true → ∃ n ∈ snap.nodes, n.id ∉ before)

theorem Meets.looked {snap : IpcSnapshot} {before : List NodeId} {late : Bool} {made : Option NodeId}
    (meets : c.Meets snap before late made) (asked : c.asks = some setting) (said : setting.Said) :
    c.looked snap before late = .looks before ∨
      ∃ id cmd, made = some id ∧ c.follows id = .ok [cmd] ∧ c.looked snap before late = .sends id cmd [] := by
  have found {id : NodeId} (same : made = some id) (finds : c.finds snap before = some id) :
      ∃ id cmd, made = some id ∧ c.follows id = .ok [cmd] ∧ c.looked snap before late = .sends id cmd [] := by
    obtain ⟨cmd, follows, -⟩ := follows_spec asked said id
    exact ⟨id, cmd, same, follows, by simp only [Call.looked, finds, follows]; rfl⟩
  cases c with
  | add name args =>
    obtain ⟨n, same, first⟩ := meets
    exact .inr (found same (by rw [finds, find?_eq_some_iff.2 first]; rfl))
  | create kind value persist =>
    obtain ⟨own, there⟩ := meets
    cases finds : (create kind value persist).finds snap before with
    | some id => exact .inr (found (own id (find?_eq_some_iff.1 finds)) finds)
    | none =>
      have early : late = false := by
        by_contra passed
        obtain ⟨n, listed, new⟩ := there (by simpa using passed)
        have old := List.find?_eq_none.1 finds n.id (List.mem_map_of_mem listed)
        simp [new] at old
      exact .inl (by simp only [Call.looked, finds, early, Bool.false_eq_true, if_false])

end Call

namespace Session

variable {start : Graph} {w : World} {c : Call} {x : Session start}

/-- A run goes well where every look finds the call's node, its Create makes one that was not there,
and what follows finds the setting on it. -/
def Careful (w : World) (c : Call) (x : Session start) : SessionEvent → Prop
  | .call h late =>
    match x.phase with
    | .looks before => x.turn = false → c.asks ≠ none → c.Meets (x.server.ipcSnapshot h) before late x.made
    | _ => True
  | .serve h => ∀ q ∈ x.queue.head?, q.mine = true →
      (x.made = none → w.mint x.server.minted ∉ x.server.graph.nodes) ∧
        ∀ id ∈ x.made, ∀ setting ∈ c.asks, setting.Open h x.server.graph id
  | _ => True

/-- The call configures its own node: what was asked is on it, once success is reported and the
call's commands are applied, and no command of the call changes another's settings. -/
structure Configures (c : Call) (x : Session start) : Prop where
  lands : ∀ text, x.phase = .ended (.ok text) → x.mine = [] → ∀ setting ∈ c.asks,
    ∃ id, x.made = some id ∧ ∃ e ∈ x.log, setting.On (e.2.settings id)
  alone : ∀ e ∈ x.log, ∀ id, x.made ≠ some id → e.2.settings id = e.1.settings id

/-! ## One step -/

/-- Nothing that follows was sent, or will be without another look. -/
def Idle (c : Call) : Phase → Prop
  | .looks _ => ∀ name, c ≠ .add name []
  | .ended (.error _) => True
  | .ended (.ok _) => c.asks = none
  | _ => False

/-- How far the call's own commands are, by where the call stands. -/
inductive Stage (c : Call) : Phase → List Command → Option NodeId → List (Graph × Graph) → Prop where
  | begins : Stage c .begins [] none []
  | creates {kind : NodeKind} {pos : Vec2} {ws : NodeId} {before : List NodeId} :
      Stage c (.creates kind pos ws before) [] none []
  | asked {phase : Phase} {kind : NodeKind} {pos : Vec2} {ws : NodeId} (idle : Idle c phase) :
      Stage c phase [.create (.node kind pos ws)] none []
  | waits {phase : Phase} {made : Option NodeId} {log : List (Graph × Graph)} (idle : Idle c phase) :
      Stage c phase [] made log
  | found {id : NodeId} {cmd : Command} {log : List (Graph × Graph)} (follows : c.follows id = .ok [cmd]) :
      Stage c (.sends id cmd []) [] (some id) log
  | sent {id : NodeId} {cmd : Command} {text : String} {log : List (Graph × Graph)}
      (follows : c.follows id = .ok [cmd]) : Stage c (.ended (.ok text)) [cmd] (some id) log
  | landed {id : NodeId} {text : String} {log : List (Graph × Graph)}
      (on : ∀ setting ∈ c.asks, ∃ e ∈ log, setting.On (e.2.settings id)) :
      Stage c (.ended (.ok text)) [] (some id) log

structure Sound (c : Call) (x : Session start) : Prop where
  stage : Stage c x.phase x.mine x.made x.log
  alone : ∀ e ∈ x.log, ∀ id, x.made ≠ some id → e.2.settings id = e.1.settings id
  granted : ∀ q ∈ x.queue, q.mine = true → q.granted = true

theorem Sound.configured (sound : x.Sound c) : x.Configures c where
  lands text ended none' setting asked := by
    obtain ⟨stage, -, -⟩ := sound
    rw [ended, none'] at stage
    cases made : x.made with
    | none =>
      rw [made] at stage
      cases stage with
      | waits idle => exact absurd (idle.symm.trans asked) nofun
    | some id =>
      rw [made] at stage
      cases stage with
      | waits idle => exact absurd (idle.symm.trans asked) nofun
      | landed on => exact ⟨id, rfl, on setting asked⟩
  alone := sound.alone

theorem created_idle (c : Call) (before : List NodeId) : Idle c (c.created before) := by
  cases c with
  | add name args =>
    cases args with
    | nil => rfl
    | cons => exact fun _ => nofun
  | create => exact fun _ => nofun

theorem looked_idle (asked : c.asks = none) (looks : ∀ name, c ≠ .add name []) (snap : IpcSnapshot) (before : List NodeId)
    (late : Bool) : Idle c (c.looked snap before late) := by
  simp only [Call.looked]
  split
  · next id _ =>
      rcases c.follows_none asked looks id with ⟨e, refused⟩ | nothing
      · rw [refused]
        trivial
      · rw [nothing]
        exact asked
  · cases c with
    | add => exact asked
    | create =>
      cases late with
      | true => exact asked
      | false => exact looks

theorem Stage.starts (c : Call) (snap : IpcSnapshot) : Stage c (c.starts snap) [] none [] := by
  simp only [Call.starts]
  split
  · exact .waits trivial
  · split
    · exact .waits trivial
    · exact .creates

/-- The one command of the call that is on its way is its Create or what follows. -/
theorem Stage.own {phase : Phase} {cmd : Command} {rest : List Command} {made : Option NodeId} {log : List (Graph × Graph)}
    (stage : Stage c phase (cmd :: rest) made log) : rest = [] ∧
      ((∃ kind pos ws, cmd = .create (.node kind pos ws) ∧ made = none ∧ log = [] ∧ Idle c phase) ∨
        ∃ id text, made = some id ∧ c.follows id = .ok [cmd] ∧ phase = .ended (.ok text)) := by
  cases stage with
  | asked idle => exact ⟨rfl, .inl ⟨_, _, _, rfl, rfl, rfl, idle⟩⟩
  | sent follows => exact ⟨rfl, .inr ⟨_, _, rfl, follows, rfl⟩⟩

theorem Stage.early {phase : Phase} {own : List Command} {made : Option NodeId} {log : List (Graph × Graph)}
    (stage : Stage c phase own made log) (early : phase = .begins ∨ ∃ kind pos ws before, phase = .creates kind pos ws before) :
    own = [] ∧ made = none ∧ log = [] := by
  have busy : ¬Idle c phase := by
    rcases early with rfl | ⟨kind, pos, ws, before, rfl⟩ <;> exact id
  cases stage with
  | begins | creates => exact ⟨rfl, rfl, rfl⟩
  | asked idle | waits idle => exact absurd idle busy
  | _ => rcases early with same | ⟨_, _, _, _, same⟩ <;> cases same

/-- A call that looks has sent its Create alone, and goes on so until it has found a node. -/
theorem Stage.looking {before : List NodeId} {own : List Command} {made : Option NodeId} {log : List (Graph × Graph)}
    (stage : Stage c (.looks before) own made log) : (∀ name, c ≠ .add name []) ∧ (∀ id, made = some id → own = []) ∧
      ∀ phase, Idle c phase → Stage c phase own made log := by
  cases stage with
  | asked looks => exact ⟨looks, nofun, fun _ idle => .asked idle⟩
  | waits looks => exact ⟨looks, fun _ _ => rfl, fun _ idle => .waits idle⟩

theorem Stage.sending {id : NodeId} {cmd : Command} {rest own : List Command} {made : Option NodeId} {log : List (Graph × Graph)}
    (stage : Stage c (.sends id cmd rest) own made log) :
    rest = [] ∧ own = [] ∧ made = some id ∧ c.follows id = .ok [cmd] := by
  cases stage with
  | asked idle | waits idle => exact idle.elim
  | found follows => exact ⟨rfl, rfl, rfl, follows⟩

theorem mine_send (x : Session start) (cmd : Command) : (x.send cmd).mine = x.mine ++ [cmd] := by
  simp [mine, send]

theorem Sound.call (sound : x.Sound c) (said : ∀ setting ∈ c.asks, setting.Said) {h : Host} {late : Bool}
    (careful : x.Careful w c (.call h late)) : (x.call c h late).Sound c := by
  obtain ⟨stage, alone, granted⟩ := sound
  have sends (cmd : Command) : ∀ q ∈ (x.send cmd).queue, q.mine = true → q.granted = true := by
    intro q member own
    rcases List.mem_append.1 member with old | new
    · exact granted q old own
    · rw [List.mem_singleton.1 new]
  cases at_ : x.phase with
  | begins =>
    simp only [Session.call, at_]
    split
    · exact ⟨stage, alone, granted⟩
    · refine ⟨?_, alone, granted⟩
      obtain ⟨own, unmade, unlogged⟩ := stage.early (.inl at_)
      show Stage c (c.starts _) x.mine x.made x.log
      rw [own, unmade, unlogged]
      exact .starts ..
  | creates kind pos ws before =>
    simp only [Session.call, at_]
    refine ⟨?_, alone, sends _⟩
    obtain ⟨own, unmade, unlogged⟩ := stage.early (.inr ⟨_, _, _, _, at_⟩)
    show Stage c (c.created before) (x.send _).mine x.made x.log
    rw [mine_send, own, unmade, unlogged]
    exact .asked (created_idle c before)
  | looks before =>
    simp only [Session.call, at_]
    rw [at_] at stage
    cases turn : x.turn with
    | true =>
      simp only [if_true]
      exact ⟨by rwa [at_], alone, granted⟩
    | false =>
      simp only [Bool.false_eq_true, if_false]
      obtain ⟨looks, unsent, goes⟩ := stage.looking
      refine ⟨?_, alone, granted⟩
      show Stage c (c.looked _ before late) x.mine x.made x.log
      cases asked : c.asks with
      | none => exact goes _ (looked_idle asked looks _ before late)
      | some setting =>
        simp only [Careful, at_] at careful
        have meets := careful turn (by rw [asked]; nofun)
        rcases meets.looked asked (said setting asked) with same | ⟨id, cmd, made, follows, same⟩
        · rw [same]
          exact stage
        · rw [same, unsent id made, made]
          exact .found follows
  | sends id cmd rest =>
    simp only [Session.call, at_]
    rw [at_] at stage
    obtain ⟨rfl, own, made, follows⟩ := stage.sending
    refine ⟨?_, alone, sends _⟩
    show Stage c (.ended (.ok _)) (x.send cmd).mine x.made x.log
    rw [mine_send, own, made]
    exact .sent follows
  | ended result =>
    simp only [Session.call, at_]
    exact ⟨stage, alone, granted⟩

theorem Sound.serve (sound : x.Sound c) (said : ∀ setting ∈ c.asks, setting.Said) {h : Host}
    (careful : x.Careful w c (.serve h)) : (x.serve w h).Sound c := by
  obtain ⟨stage, alone, granted⟩ := sound
  cases queued : x.queue with
  | nil =>
    simp only [Session.serve, queued]
    exact ⟨stage, alone, granted⟩
  | cons q queue =>
    have rest : ∀ q ∈ queue, q.mine = true → q.granted = true := fun q' member =>
      granted q' (by rw [queued]; exact List.mem_cons_of_mem _ member)
    simp only [Session.serve, queued]
    cases own : q.mine with
    | false =>
      have same : x.mine = (queue.filter Queued.mine).map Queued.cmd := by simp [mine, queued, own]
      simp only [Bool.false_eq_true, if_false]
      rw [same] at stage
      exact ⟨stage, alone, rest⟩
    | true =>
      have split : x.mine = q.cmd :: (queue.filter Queued.mine).map Queued.cmd := by simp [mine, queued, own]
      have taken : x.takes w h q = x.server.apply w h q.cmd := if_pos (granted q (by simp [queued]) own)
      obtain ⟨fresh, open_⟩ := careful q (by simp [queued]) own
      simp only [if_true, taken]
      rw [split] at stage
      obtain ⟨last, ⟨kind, pos, ws, create, unmade, unlogged, idle⟩ | ⟨id, text, made, follows, ended⟩⟩ := stage.own
      · -- The Create.
        refine ⟨?_, fun e member n other => ?_, rest⟩
        · show Stage c x.phase ((queue.filter Queued.mine).map Queued.cmd) _ _
          rw [last]
          exact .waits idle
        · simp only [unlogged, List.nil_append, List.mem_singleton] at member
          subst member
          simp only [unmade, Option.none_or, create] at other ⊢
          exact Server.apply_create w h x.server kind pos ws (fresh unmade) n other
      · -- What follows it.
        refine ⟨?_, fun e member n other => ?_, rest⟩
        · show Stage c x.phase ((queue.filter Queued.mine).map Queued.cmd) _ _
          rw [last, ended, made]
          refine .landed fun setting asked => ⟨_, List.mem_append_right _ (List.mem_singleton.2 rfl), ?_⟩
          obtain ⟨cmd, follows', -, sets⟩ := Call.follows_spec asked (said setting asked) id
          obtain rfl : cmd = q.cmd := by
            rw [follows] at follows'
            cases follows'
            rfl
          exact sets _ w h x.server (open_ id made setting asked)
        · rw [made] at other
          rcases List.mem_append.1 member with old | new
          · exact alone e old n (made ▸ other)
          · rw [List.mem_singleton.1 new]
            have about := Call.follows_about follows q.cmd (List.mem_singleton.2 rfl)
            exact Server.apply_concerns w h about x.server fun same => other (congrArg some same.symm)

theorem Sound.step (sound : x.Sound c) (said : ∀ setting ∈ c.asks, setting.Said) {e : SessionEvent}
    (careful : x.Careful w c e) : (x.step w c e).Sound c := by
  cases e with
  | call h late => exact sound.call said careful
  | others granted cmd =>
    obtain ⟨stage, alone, granted'⟩ := sound
    refine ⟨?_, alone, fun q member own => ?_⟩
    · have same : (x.step w c (.others granted cmd)).mine = x.mine := by simp [Session.step, mine]
      rw [← same] at stage
      exact stage
    · rcases List.mem_append.1 member with old | new
      · exact granted' q old own
      · rw [List.mem_singleton.1 new] at own
        cases own
  | serve h => exact sound.serve said careful
  | tick h => exact ⟨sound.stage, sound.alone, sound.granted⟩

/-- What the call asks is on the node that it made, whenever it reports success and its commands
are applied, and nothing else was set by it, in every run in which its looks find that node. -/
theorem configures {s : Server start} {queue : List Queued} {events : List SessionEvent}
    (said : ∀ setting ∈ c.asks, setting.Said) (others : ∀ q ∈ queue, q.mine = false)
    (run : Along (step w c) (Careful w c) (.opens s queue) events) :
    (events.foldl (step w c) (.opens s queue)).Configures c := by
  have opens : Sound c (.opens s queue) := by
    refine ⟨?_, nofun, fun q member own => ?_⟩
    · have none' : (Session.opens s queue).mine = [] := by simpa [mine, opens] using others
      rw [none']
      exact .begins
    · rw [others q member] at own
      cases own
  exact (run.keeps (Q := Sound c) (fun _ _ careful sound => sound.step said careful) opens).configured

end Session

/-! ## Poles -/

section Poles

/-- A tab with nothing on it. -/
def blankDocument : Document where
  dependencies := [{ name := "easy-anchor", source := .path "anchor.wasm" }]
  workspaces := [{ id := 1 }]

def quietHost : Host := .plain fun _ => none

abbrev opening : Session (Graph.ofDocument blankDocument) := .opens (.fresh blankDocument) []

/-- Another client makes a note of its own. -/
def another : SessionEvent := .others true (.create (.node .note (0, 0) 1))

/-- The other's note comes between the first snapshot of the call and its Create. -/
def crossed : List SessionEvent :=
  [.call quietHost false, another, .serve quietHost, .tick quietHost, .call quietHost false, .call quietHost false,
    .call quietHost false, .serve quietHost, .serve quietHost, .tick quietHost]

/-- The other's note is taken for the call's own. -/
theorem crossed_misses :
    let c : Call := .create .note (some "hello") false
    let x := crossed.foldl (Session.step .plain c) opening
    (x.phase = .ended (.ok (c.report (some 1001))) ∧ x.mine = [] ∧ x.made = some 1003) ∧
      (x.server.graph.noteText.lookup 1001 = some "hello" ∧ x.server.graph.noteText.lookup 1003 = some "note") ∧
        ¬x.Configures c := by
  refine ⟨⟨rfl, rfl, rfl⟩, ⟨rfl, rfl⟩, fun own => ?_⟩
  have seen : (crossed.foldl (Session.step .plain (.create .note (some "hello") false)) opening).log.map
      (fun e => ((e.1.settings 1001).text, (e.2.settings 1001).text)) =
        [(some "note", some "note"), (some "note", some "hello")] := rfl
  have changed : (some "note", some "hello") ∈ [(some "note", some "note"), (some "note", some "hello")] := by decide
  rw [← seen] at changed
  obtain ⟨e, member, texts⟩ := List.mem_map.1 changed
  obtain ⟨before, after⟩ := Prod.mk.injEq .. ▸ texts
  have same := congrArg Settings.text (own.alone e member 1001 (by decide))
  rw [before, after] at same
  exact absurd same (by decide)

/-- The other's note comes after the call's own. -/
def orderly : List SessionEvent :=
  [.call quietHost false, .call quietHost false, .serve quietHost, .tick quietHost, another, .call quietHost false,
    .call quietHost false, .serve quietHost, .serve quietHost, .tick quietHost]

/-- The note is there alone when the call looks, and is still one when its text comes. -/
theorem orderly_careful :
    Along (Session.step .plain (.create .note (some "hello") false)) (Session.Careful .plain (.create .note (some "hello") false))
      opening orderly := by
  refine ⟨trivial, trivial, fun _ _ _ => ⟨fun _ => by decide, nofun⟩, trivial, trivial, ?_, trivial, ?_, ?_, trivial, trivial⟩
  · exact fun _ _ => ⟨fun id first => Eq.trans (by rfl) (Call.find?_eq_some_iff.2 first), nofun⟩
  · refine fun _ _ _ => ⟨nofun, fun id same setting asked => ?_⟩
    cases same
    cases asked
    exact Table.mem_of_lookup (b := "note") rfl
  · refine fun _ _ _ => ⟨nofun, fun id same setting asked => ?_⟩
    cases same
    cases asked
    exact Table.mem_of_lookup (b := "note") rfl

/-- An app that is called as its dependency is, and is there when the call looks. -/
def named : List SessionEvent :=
  [.call quietHost false, .call quietHost false, .serve quietHost, .tick quietHost, .call quietHost false,
    .call quietHost false, .serve quietHost, .tick quietHost]

theorem named_careful :
    Along (Session.step .plain (.add "easy-anchor" ["-n", "4"])) (Session.Careful .plain (.add "easy-anchor" ["-n", "4"]))
      opening named := by
  refine ⟨trivial, trivial, fun _ _ _ => ⟨fun _ => by decide, nofun⟩, trivial, ?_, trivial, ?_, trivial, trivial⟩
  · exact fun _ _ => ⟨{ id := 1001, name := "easy-anchor", args := [] }, rfl, [], [], rfl, ⟨rfl, rfl⟩, nofun⟩
  · refine fun _ _ _ => ⟨nofun, fun id same setting asked => ?_⟩
    cases same
    cases asked
    show 1001 ∈ _
    exact Table.mem_of_lookup (b := ⟨.app, 1, (0x42700000, 0x42700000), appSize⟩) rfl

theorem configures_note :
    let note : Call := .create .note (some "hello") false
    let add : Call := .add "easy-anchor" ["-n", "4"]
    let x := orderly.foldl (Session.step .plain note) opening
    let y := named.foldl (Session.step .plain add) opening
    (x.Configures note ∧ x.server.graph.noteText.lookup 1001 = some "hello" ∧
        x.server.graph.noteText.lookup 1003 = some "note") ∧
      y.Configures add ∧ y.server.graph.nodeArgs.lookup 1001 = some ["-n", "4"] := by
  have text : ∀ setting ∈ (Call.create .note (some "hello") false).asks, setting.Said := by
    intro setting asked
    cases asked
    trivial
  have words : ∀ setting ∈ (Call.add "easy-anchor" ["-n", "4"]).asks, setting.Said := by
    intro setting asked
    cases asked
    show splitWhitespace _ = _
    decide
  refine ⟨⟨?_, rfl, rfl⟩, ?_, rfl⟩
  · exact Session.configures text (fun _ member => by cases member) orderly_careful
  · exact Session.configures words (fun _ member => by cases member) named_careful

end Poles

end Wk
