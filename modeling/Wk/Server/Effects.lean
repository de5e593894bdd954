/-
# Wk.Server.Effects -- which edits each function of the server performs

`Leads ok h h'` says that `h'` is `h` with more edits, each meeting `ok` in the graph
it was applied to; `Becomes ok s s'` adds that the server's own books (instances,
undo, what is kept aside) are as they were.  There is one lemma per function of the
server, and the last of them covers a whole session: every edit of it is `Emitted`,
as long as a client wires only nodes that are there.
-/
import Wk.Server.Edits
import Mathlib

namespace Wk

open Wk.Library

set_option autoImplicit false

/-! ## Histories that lead to histories -/

namespace History

variable {start : Graph}

/-- `h'` is `h` with more edits, each of which met `ok`. -/
inductive Leads (ok : Graph → Edit → Prop) (h : History start) : History start → Prop where
  | refl : Leads ok h h
  | perform {h' : History start} {e : Edit} (led : Leads ok h h') (met : ok h'.graph e) :
      Leads ok h (h'.perform e)

variable {ok ok' : Graph → Edit → Prop} {h h' h'' : History start}

theorem Leads.trans (first : Leads ok h h') (second : Leads ok h' h'') : Leads ok h h'' := by
  induction second with
  | refl => exact first
  | perform _ met ih => exact ih.perform met

theorem Leads.mono (weaker : ∀ g e, ok g e → ok' g e) (led : Leads ok h h') : Leads ok' h h' := by
  induction led with
  | refl => exact .refl
  | perform _ met ih => exact ih.perform (weaker _ _ met)

/-- What every such edit keeps is kept. -/
theorem Leads.keeps {P : Graph → Prop} (turn : ∀ g e, ok g e → P g → P (e.apply g))
    (led : Leads ok h h') (here : P h.graph) : P h'.graph := by
  induction led with
  | refl => exact here
  | perform _ met ih => exact turn _ _ met ih

theorem every_empty : (History.empty start).Every ok := by
  intro before e after split
  cases before <;> cases split

/-- With an invariant to rely on, a condition on every edit gives another. -/
theorem Every.given {P : Graph → Prop} (first : P start)
    (turn : ∀ g e, ok g e → P g → P (e.apply g)) (gives : ∀ g e, ok g e → P g → ok' g e)
    (all : h.Every ok) : h.Every ok' := by
  intro before e after split
  let soFar : History start := { edits := before, graph := replay start before, replayed := rfl }
  have met : soFar.Every ok := by
    intro earlier e' later same
    have same : before = earlier ++ e' :: later := same
    exact all earlier e' (later ++ e :: after) (by rw [split, same]; simp)
  exact gives _ e (all before e after split) (soFar.every_keeps first turn met)

theorem Every.perform {e : Edit} (all : h.Every ok) (met : ok h.graph e) : (h.perform e).Every ok := by
  intro before e' after split
  rcases List.eq_nil_or_concat after with rfl | ⟨rest, last, rfl⟩
  · obtain ⟨same, rfl⟩ := List.append_singleton_inj.1 split
    rw [← same, ← h.replayed]
    exact met
  · have shorter : h.edits = before ++ e' :: rest := by
      rw [List.concat_eq_append, ← List.cons_append, ← List.append_assoc] at split
      exact (List.append_singleton_inj.1 split).1
    exact all before e' rest shorter

theorem Every.and (all : h.Every ok) (all' : h.Every ok') :
    h.Every fun g e => ok g e ∧ ok' g e :=
  fun before e after split => ⟨all before e after split, all' before e after split⟩

theorem Leads.every (led : Leads ok h h') (all : h.Every ok) : h'.Every ok := by
  induction led with
  | refl => exact all
  | perform _ met ih => exact ih.perform met

end History

/-! ## Servers that become servers -/

namespace Server

variable {start : Graph}

/-- What the server keeps beside the graph and the running half. -/
def books (s : Server start) :=
  (s.instances, s.undo, s.unplaced, s.unplacedWires, s.authored, s.scratchTab)

/-- `s'` is `s` with more edits, each of which met `ok`, perhaps more ids minted, and
the same books. -/
structure Becomes (ok : Graph → Edit → Prop) (s s' : Server start) : Prop where
  leads : s.history.Leads ok s'.history
  books : s'.books = s.books
  mints : s.minted ≤ s'.minted

variable {ok ok' : Graph → Edit → Prop} {s s' s'' : Server start}

@[refl] theorem Becomes.refl (s : Server start) : Becomes ok s s := ⟨.refl, rfl, le_rfl⟩

theorem Becomes.trans (first : Becomes ok s s') (second : Becomes ok s' s'') : Becomes ok s s'' :=
  ⟨first.leads.trans second.leads, second.books.trans first.books, first.mints.trans second.mints⟩

theorem becomes_perform {e : Edit} (met : ok s.graph e) : Becomes ok s (s.perform e) :=
  ⟨.perform .refl met, rfl, le_rfl⟩

theorem Becomes.perform {e : Edit} (became : Becomes ok s s') (met : ok s'.graph e) :
    Becomes ok s (s'.perform e) := became.trans (becomes_perform met)

/-- A loop whose every turn meets `ok`, with an invariant that its turns rely on. -/
theorem becomes_loop {α : Type} {f : Server start → α → Server start} (I : Server start → Prop)
    (xs : List α) (here : I s)
    (turn : ∀ s, ∀ x ∈ xs, I s → Becomes ok s (f s x) ∧ I (f s x)) :
    Becomes ok s (xs.foldl f s) ∧ I (xs.foldl f s) := by
  refine List.foldlRecOn (motive := fun s' => Becomes ok s s' ∧ I s') xs f ⟨.refl s, here⟩ ?_
  intro s' so x member
  obtain ⟨became, kept⟩ := turn s' x member so.2
  exact ⟨so.1.trans became, kept⟩

/-- A loop whose every turn meets `ok` by itself. -/
theorem becomes_foldl {α : Type} {f : Server start → α → Server start} (xs : List α)
    (turn : ∀ s, ∀ x ∈ xs, Becomes ok s (f s x)) : Becomes ok s (xs.foldl f s) :=
  (becomes_loop (fun _ => True) xs trivial fun s x member _ => ⟨turn s x member, trivial⟩).1

end Server

/-! ## What is ever emitted -/

/-- What is known of every edit: a private net is minted only for a pair that has a
MIDI wire and no net yet, a removal parts each private net of its node once, and, as
long as the clients' wire commands do (`strict`), a wire is toggled on only between
live nodes. -/
def Emitted (strict : Prop) (g : Graph) : Edit → Prop
  | .toggle r a b => strict → (a, b) ∈ g.links r ∨ (a ∈ g.nodes ∧ b ∈ g.nodes)
  | .mintNet key _ => key ∉ g.appLinkNets ∧ (key ∈ g.midiLinks ∨ key.swap ∈ g.midiLinks)
  | .remove order _ => ∀ keys, (order keys).Perm keys
  | _ => True

/-- Whether an edit is about wires alone. -/
def Edit.isWire : Edit → Bool
  | toggle .. | mintNet .. | dropNet .. | mountPath .. | servePort .. | midiChannel ..
  | pruneMountPaths | pruneServePorts | pruneMidiChannels => true
  | _ => false

/-- An emitted edit of wires. -/
def WireEdit (strict : Prop) (g : Graph) (e : Edit) : Prop := Emitted strict g e ∧ e.isWire = true

variable {strict : Prop}

/-- Edits of wires leave the canvas. -/
theorem WireEdit.toCanvas {g : Graph} {e : Edit} (wire : WireEdit strict g e) :
    (e.apply g).toCanvas = g.toCanvas := by
  cases e with
  | dropNet key => exact Graph.dropNet_toCanvas g key
  | place | pose | remove | update | keepTokens | addTab | removeTab | nameTab => cases wire.2
  | _ => rfl

namespace Server

variable {start : Graph} (w : World) (h : Host) (s : Server start)

/-- Wire edits leave the canvas, however many. -/
theorem Becomes.toCanvas {s s' : Server start} (became : Becomes (WireEdit strict) s s') :
    s'.graph.toCanvas = s.graph.toCanvas :=
  became.leads.keeps (P := fun g => g.toCanvas = s.graph.toCanvas)
    (fun _ _ wire same => wire.toCanvas.trans same) rfl

theorem syncMounts_becomes : Becomes (WireEdit strict) s (s.syncMounts w h) :=
  ⟨.perform .refl ⟨trivial, rfl⟩, rfl, le_rfl⟩

theorem syncMidi_becomes : Becomes (WireEdit strict) s s.syncMidi := becomes_perform ⟨trivial, rfl⟩

theorem syncServes_becomes : Becomes (WireEdit strict) s s.syncServes := becomes_perform ⟨trivial, rfl⟩

/-- A wanted pair has a MIDI wire, one way or the other. -/
theorem mem_wantedNets {key : Pair} (wanted : key ∈ s.wantedNets h) :
    key ∈ s.graph.midiLinks ∨ key.swap ∈ s.graph.midiLinks := by
  rw [wantedNets, List.mem_dedup, List.mem_map] at wanted
  obtain ⟨⟨a, b⟩, member, rfl⟩ := wanted
  have link : (a, b) ∈ s.graph.midiLinks := (List.mem_filter.1 member).1
  unfold Graph.canonicalPair
  split
  · exact .inl link
  · exact .inr link

theorem midiLinks_toggle_netLink (g : Graph) (a b : NodeId) :
    (g.toggle .netLink a b).midiLinks = g.midiLinks := by
  unfold Graph.toggle
  exact Graph.setLinks_links ..

theorem midiLinks_dropNet (g : Graph) (key : Pair) : (g.dropNet key).midiLinks = g.midiLinks := by
  unfold Graph.dropNet
  split
  · rfl
  · simp only [midiLinks_toggle_netLink]

theorem midiLinks_mintNet (g : Graph) (key : Pair) (net : NodeId) :
    (g.mintNet key net).midiLinks = g.midiLinks := by
  show ((g.toggle .netLink key.1 net).toggle .netLink key.2 net).midiLinks = g.midiLinks
  rw [midiLinks_toggle_netLink, midiLinks_toggle_netLink]

theorem syncAppLinkNets_becomes : Becomes (WireEdit strict) s (s.syncAppLinkNets w h) := by
  -- Neither loop touches a MIDI wire, so what was wanted at the start stays wired.
  let Same (s' : Server start) := s'.graph.midiLinks = s.graph.midiLinks
  have parts : ∀ keys : List Pair,
      Becomes (WireEdit strict) s (keys.foldl (fun s key => s.perform (.dropNet key)) s) ∧
        Same (keys.foldl (fun s key => s.perform (.dropNet key)) s) := fun keys =>
    becomes_loop Same keys rfl fun s' key _ same =>
      ⟨becomes_perform ⟨trivial, rfl⟩, (midiLinks_dropNet _ key).trans same⟩
  unfold syncAppLinkNets
  obtain ⟨parted, midi⟩ := parts (h.pairs (s.graph.appLinkNets.keys.filter
    fun key => key ∉ s.wantedNets h))
  refine parted.trans (becomes_loop Same _ midi ?_).1
  intro s' key member same
  have wanted := mem_wantedNets h s ((h.pairs_perm _).mem_iff.1 member)
  rw [← same] at wanted
  dsimp only
  split
  · exact ⟨.refl s', same⟩
  · next new =>
      exact ⟨⟨.perform .refl ⟨⟨new, wanted⟩, rfl⟩, rfl, Nat.le_succ _⟩,
        (midiLinks_mintNet _ key _).trans same⟩

/-- The one edit of a toggle, of a wire that is there or between live nodes. -/
theorem toggle_wireEdit {g : Graph} {r : WireRel} {a b : NodeId}
    (fits : strict → (a, b) ∈ g.links r ∨ (a ∈ g.nodes ∧ b ∈ g.nodes)) :
    WireEdit strict g (.toggle r a b) := ⟨fits, rfl⟩

theorem toggleFile_becomes {file app : NodeId}
    (fits : WireEdit strict s.graph (.toggle .connection file app)) :
    Becomes (WireEdit strict) s (s.toggleFile w h file app) :=
  (becomes_perform fits).trans (syncMounts_becomes w h _)

theorem toggleMidi_becomes {src dst : NodeId} (fits : WireEdit strict s.graph (.toggle .midi src dst)) :
    Becomes (WireEdit strict) s (s.toggleMidi w h src dst) :=
  ((becomes_perform fits).trans (syncMidi_becomes _)).trans (syncAppLinkNets_becomes w h _)

theorem toggleServe_becomes {served hostport : NodeId}
    (fits : WireEdit strict s.graph (.toggle .serve served hostport)) :
    Becomes (WireEdit strict) s (s.toggleServe served hostport) :=
  (becomes_perform fits).trans (syncServes_becomes _)

theorem toggleRel_becomes {r : WireRel} {a b : NodeId} (fits : WireEdit strict s.graph (.toggle r a b)) :
    Becomes (WireEdit strict) s (s.toggleRel w h r a b) := by
  cases r with
  | connection => exact toggleFile_becomes w h s fits
  | midi => exact toggleMidi_becomes w h s fits
  | serve => exact toggleServe_becomes s fits
  | _ => exact becomes_perform fits

/-- Two live nodes, in either order, may be toggled in any relation. -/
theorem connectToggle_becomes {a b : NodeId}
    (live : strict → (Wiring.classify a b (s.graph.classOf a) (s.graph.classOf b)).isSome = true →
      a ∈ s.graph.nodes ∧ b ∈ s.graph.nodes) :
    Becomes (WireEdit strict) s (s.connectToggle w h a b) := by
  have fits : ∀ {wire : Wire} {x y : NodeId} (r : WireRel),
      Wiring.classify a b (s.graph.classOf a) (s.graph.classOf b) = some wire →
        (x, y) = (a, b) ∨ (x, y) = (b, a) → WireEdit strict s.graph (.toggle r x y) := by
    intro wire x y r formed same
    have live := fun asked => live asked (formed ▸ rfl)
    rcases same with same | same <;> cases same
    · exact toggle_wireEdit fun asked => .inr (live asked)
    · exact toggle_wireEdit fun asked => .inr (live asked).symm
  unfold connectToggle
  split <;> rename_i formed <;> try have ends := Wiring.classify_ends formed
  · exact toggleFile_becomes w h s (fits _ formed ends)
  · exact toggleServe_becomes s (fits _ formed ends)
  · exact becomes_perform (fits _ formed ends)
  · exact becomes_perform (fits _ formed ends)
  · exact becomes_perform (fits _ formed ends)
  · exact becomes_perform (fits _ formed ends)
  · split
    · exact ⟨.refl, rfl, le_rfl⟩
    · split
      · exact toggleFile_becomes w h s (fits _ formed ends)
      · split
        · next dst _ _ =>
            refine toggleFile_becomes w h s (fits _ formed ?_)
            rcases ends with same | same <;> cases same
            · exact .inr rfl
            · exact .inl rfl
        · exact toggleMidi_becomes w h s (fits _ formed ends)
  · exact .refl s

theorem nodeExists_iff {id : NodeId} : s.nodeExists id = true ↔ id ∈ s.graph.nodes := by
  simp [nodeExists]

theorem syncPendingAppWires_becomes : Becomes (WireEdit strict) s (s.syncPendingAppWires w h) := by
  have emptied : Becomes (WireEdit strict) s { s with pendingAppWires := [] } := ⟨.refl, rfl, le_rfl⟩
  refine emptied.trans (becomes_foldl _ ?_)
  intro s l _
  split
  · exact .refl s
  · next live =>
      simp only [Bool.or_eq_true, Bool.not_eq_true', not_or, Bool.not_eq_false, nodeExists_iff] at live
      split
      · exact ⟨.refl, rfl, le_rfl⟩
      · split
        · exact .refl s
        · exact connectToggle_becomes w h s fun _ _ => live

theorem unwireRel_becomes (r : WireRel) (a b : NodeId) :
    Becomes (WireEdit strict) s (s.unwireRel w h r a b) := by
  unfold unwireRel
  split
  · next present => exact toggleRel_becomes w h s (toggle_wireEdit fun _ => .inl present)
  · exact .refl s

theorem rewire_becomes (wires : List Pair) : Becomes (WireEdit strict) s (s.rewire w h wires) := by
  refine becomes_foldl wires ?_
  intro s l _
  split
  · next live =>
      simp only [Bool.and_eq_true, nodeExists_iff] at live
      exact connectToggle_becomes w h s fun _ _ => live.1
  · exact .refl s

theorem applyWire_becomes (made : List (WireRel × NodeId × NodeId)) (wire : WireRel × NodeId × NodeId) :
    Becomes (WireEdit strict) s (applyWire w h (s, made) wire).1 := by
  unfold applyWire
  dsimp only
  split
  · next live =>
      simp only [Bool.and_eq_true, nodeExists_iff] at live
      exact toggleRel_becomes w h s (toggle_wireEdit fun _ => .inr live.1)
  · exact .refl s

/-- The loop over a workspace's saved wires. -/
theorem applyWireLoop_becomes (wires : List (WireRel × NodeId × NodeId)) :
    Becomes (WireEdit strict) s (wires.foldl (applyWire w h) (s, [])).1 := by
  refine List.foldlRecOn
    (motive := fun acc : Server start × List (WireRel × NodeId × NodeId) =>
      Becomes (WireEdit strict) s acc.1) wires _ (.refl s) ?_
  intro acc so wire _
  exact so.trans (applyWire_becomes w h acc.1 acc.2 wire)

theorem applyWires_becomes (saved : Workspace) : Becomes (WireEdit strict) s (s.applyWires w h saved).1 := by
  have overrides : ∀ {β : Type} (s : Server start) (rows : List β) (edit : β → Edit),
      (∀ g row, WireEdit strict g (edit row)) →
      Becomes (WireEdit strict) s (rows.foldl (fun s row => s.perform (edit row)) s) :=
    fun s rows edit fits => becomes_foldl rows fun s row _ => becomes_perform (fits _ row)
  have made : Becomes (WireEdit strict) s ((wiresOf saved).foldl (applyWire w h) (s, [])).1 :=
    applyWireLoop_becomes w h s (wiresOf saved)
  have paths := made.trans (overrides _ (inKeyOrder saved.mountPaths)
    (fun row => .mountPath row.1 (some row.2)) fun _ _ => ⟨trivial, rfl⟩)
  have mounted := paths.trans (syncMounts_becomes w h _)
  have ports := mounted.trans (overrides _ (inKeyOrder saved.servePorts)
    (fun row => .servePort row.1 (some row.2)) fun _ _ => ⟨trivial, rfl⟩)
  have channels := ports.trans (overrides _ (inKeyOrder saved.midiChannels)
    (fun row => .midiChannel row.1 (some row.2)) fun _ _ => ⟨trivial, rfl⟩)
  exact channels.trans (syncServes_becomes _)

theorem setMidiChannel_becomes (src dst : NodeId) (channel : Nat) :
    Becomes (WireEdit strict) s (s.setMidiChannel src dst channel) := by
  unfold setMidiChannel
  split
  · exact .refl s
  · exact (becomes_perform ⟨trivial, rfl⟩).trans (syncMidi_becomes _)

theorem setServePort_becomes (served hostport : NodeId) (container : Nat) :
    Becomes (WireEdit strict) s (s.setServePort served hostport container) := by
  unfold setServePort
  split
  · exact .refl s
  · exact (becomes_perform ⟨trivial, rfl⟩).trans (syncServes_becomes _)

theorem setMount_becomes (volume app : NodeId) (path : String) :
    Becomes (WireEdit strict) s (s.setMount w h volume app path) := by
  unfold setMount
  split
  · exact .refl s
  · exact ⟨.perform .refl ⟨trivial, rfl⟩, rfl, le_rfl⟩

theorem tick_becomes : Becomes (WireEdit strict) s (s.tick w h) := by
  have drained : Becomes (WireEdit strict) s
      { s with runtime := s.runtime.drainPendingRun w h s.nodeAuth s.graph } :=
    ⟨.refl, rfl, le_rfl⟩
  have wired := drained.trans (syncPendingAppWires_becomes w h _)
  have mounted := wired.trans (syncMounts_becomes w h _)
  have routed := mounted.trans (syncMidi_becomes _)
  exact (routed.trans (syncAppLinkNets_becomes w h _)).trans (syncServes_becomes _)

/-! ## Nodes -/

end Server

/-- Where a node is placed, and which definition it instantiates if it is a group. -/
structure Spot where
  ws : NodeId
  definition : Option String

/-- An edit about node `id`, which may be placed at `spot`, and the pruning that
follows it. -/
def NodeEdit (id : NodeId) (spot : Option Spot) (_ : Graph) : Edit → Prop
  | .place n ws _ _ payload => n = id ∧ spot = some ⟨ws, payload.definition⟩
  | .pose n _ _ => n = id
  | .update n u => n = id ∧ ∀ grp, u ≠ .group grp
  | .pruneMountPaths => True
  | .pruneServePorts => True
  | _ => False

theorem NodeEdit.emitted {id : NodeId} {spot : Option Spot} (g : Graph) (e : Edit)
    (about : NodeEdit id spot g e) :
    Emitted strict g e := by
  cases e with
  | toggle | mintNet | remove => cases about
  | _ => trivial

namespace Server

variable {start : Graph} (w : World) (h : Host) (s : Server start)

/-- Placing, and whatever the running half does around it. -/
theorem place_becomes {id ws : NodeId} {definition : Option String} {payload : Payload}
    (instantiates : payload.definition = definition) (pos size : Vec2) :
    Becomes (NodeEdit id (some ⟨ws, definition⟩)) s (s.place id ws pos size payload) :=
  becomes_perform ⟨rfl, by rw [instantiates]⟩

theorem update_becomes {id : NodeId} {spot : Option Spot} {u : Update} (plain : ∀ grp, u ≠ .group grp) :
    Becomes (NodeEdit id spot) s (s.perform (.update id u)) := becomes_perform ⟨rfl, plain⟩

theorem openMidiDevice_becomes {id : NodeId} {spot : Option Spot} (want : String) :
    Becomes (NodeEdit id spot) s (s.openMidiDevice h id want) := by
  unfold openMidiDevice
  split
  · exact update_becomes s nofun
  · exact .refl s

theorem openMidiOutDevice_becomes {id : NodeId} {spot : Option Spot} (want : String) :
    Becomes (NodeEdit id spot) s (s.openMidiOutDevice h id want) := by
  unfold openMidiOutDevice
  split
  · exact update_becomes s nofun
  · exact .refl s

theorem createMulticast_becomes {id ws : NodeId} (cfg : Mcast) (pos size : Vec2) :
    Becomes (NodeEdit id (some ⟨ws, none⟩)) s (s.createMulticast h id cfg pos size ws) := by
  unfold createMulticast
  split
  · exact place_becomes s (by rfl) ..
  · exact .refl s

theorem createUplink_becomes {id ws : NodeId} (secret : Option Bytes) (pos size : Vec2) :
    Becomes (NodeEdit id (some ⟨ws, none⟩)) s (s.createUplink h id secret pos size ws) := by
  unfold createUplink
  split
  · exact place_becomes s (by rfl) ..
  · exact .refl s

theorem createVeilidUplink_becomes {id ws : NodeId} (identity : Option String) (pos size : Vec2) :
    Becomes (NodeEdit id (some ⟨ws, none⟩)) s (s.createVeilidUplink h id identity pos size ws) := by
  unfold createVeilidUplink
  split
  · exact place_becomes s (by rfl) ..
  · exact .refl s

theorem setNodeArgs_becomes {id : NodeId} {spot : Option Spot} (text : String) :
    Becomes (NodeEdit id spot) s (s.setNodeArgs id text) := by
  unfold setNodeArgs
  split
  · exact update_becomes s nofun
  · exact .refl s

/-- Restoring a node edits that node alone. -/
theorem materializeKind_becomes (ws : NodeId) (snap : NodeSnap) (fileData : Bytes) :
    Becomes (NodeEdit snap.id (some ⟨ws, snap.kind.instantiates⟩)) s (s.materializeKind w h ws snap fileData) := by
  unfold materializeKind
  cases snap.kind with
  | app depName name options args token =>
    dsimp only
    split
    · exact .refl s
    · exact ⟨.perform .refl ⟨rfl, rfl⟩, rfl, le_rfl⟩
  | volume name persist =>
    dsimp only
    split <;> exact ⟨.perform .refl ⟨rfl, rfl⟩, rfl, le_rfl⟩
  | bindMount path =>
    dsimp only
    split <;> exact ⟨.perform .refl ⟨rfl, rfl⟩, rfl, le_rfl⟩
  | iroh secret peer =>
    dsimp only
    split
    · exact (createUplink_becomes h s ..).trans (setNodeArgs_becomes _ _)
    · exact createUplink_becomes h s ..
  | veilid secret peer =>
    dsimp only
    split
    · exact (createVeilidUplink_becomes h s ..).trans (setNodeArgs_becomes _ _)
    · exact createVeilidUplink_becomes h s ..
  | midiIn device => exact (place_becomes s (by rfl) ..).trans (openMidiDevice_becomes h _ _)
  | midiOut device => exact (place_becomes s (by rfl) ..).trans (openMidiOutDevice_becomes h _ _)
  | multicast iface groups => exact createMulticast_becomes h s ..
  | port p => exact ⟨.perform .refl ⟨rfl, rfl⟩, rfl, le_rfl⟩
  | net gateway => cases gateway <;> exact place_becomes s (by rfl) ..
  | _ => exact place_becomes s (by rfl) ..

theorem materialize_becomes (ws : NodeId) (snap : NodeSnap) (fileData : Bytes) :
    Becomes (NodeEdit snap.id (some ⟨ws, snap.kind.instantiates⟩)) s (s.materialize w h ws snap fileData) := by
  unfold materialize
  split
  · exact .refl s
  · exact (materializeKind_becomes w h s ws snap fileData).perform rfl

theorem allocId_becomes {ok : Graph → Edit → Prop} : Becomes ok s (s.allocId w).2 :=
  ⟨.refl, rfl, Nat.le_succ _⟩

/-- A new node is placed under the id minted next. -/
theorem addPlain_becomes {payload : Payload} (plain : payload.definition = none) (pos size : Vec2)
    (ws : NodeId) :
    Becomes (NodeEdit (w.mint s.minted) (some ⟨ws, none⟩)) s (s.addPlain w pos size ws payload) :=
  ⟨.perform .refl ⟨rfl, by rw [plain]⟩, rfl, Nat.le_succ _⟩

/-- A duplicate of a group, placed under the id minted next. -/
theorem placeGroup_becomes (ws : NodeId) (pos size : Vec2) (grp : GroupNode) :
    Becomes (NodeEdit (w.mint s.minted) (some ⟨ws, some grp.definition⟩)) s
      ((s.allocId w).2.place (w.mint s.minted) ws pos size (.group grp)) :=
  (allocId_becomes w s).trans (place_becomes _ (by rfl) ..)

theorem addHostPort_becomes (pos : Vec2) (ws : NodeId) :
    Becomes (NodeEdit (w.mint s.minted) (some ⟨ws, none⟩)) s (s.addHostPort w pos ws) :=
  ⟨.perform .refl ⟨rfl, rfl⟩, rfl, Nat.le_succ _⟩

theorem addVirtualFile_becomes (pos : Vec2) (ws : NodeId) :
    Becomes (NodeEdit (w.mint s.minted) (some ⟨ws, none⟩)) s (s.addVirtualFile w pos ws) :=
  ⟨.perform .refl ⟨rfl, rfl⟩, rfl, Nat.le_succ _⟩

theorem addHostMappedFile_becomes (pos : Vec2) (ws : NodeId) :
    Becomes (NodeEdit (w.mint s.minted) (some ⟨ws, none⟩)) s (s.addHostMappedFile w pos ws) :=
  ⟨.perform .refl ⟨rfl, rfl⟩, rfl, Nat.le_succ _⟩

theorem addHostMount_becomes (path : String) (pos : Vec2) (ws : NodeId) :
    Becomes (NodeEdit (w.mint s.minted) (some ⟨ws, none⟩)) s (s.addHostMount w h path pos ws) :=
  ⟨.perform (.perform .refl ⟨rfl, rfl⟩) trivial, rfl, Nat.le_succ _⟩

theorem addIrohNode_becomes (pos : Vec2) (ws : NodeId) :
    Becomes (NodeEdit (w.mint s.minted) (some ⟨ws, none⟩)) s (s.addIrohNode w h pos ws) :=
  (allocId_becomes w s).trans (createUplink_becomes h _ ..)

theorem addVeilidNode_becomes (pos : Vec2) (ws : NodeId) :
    Becomes (NodeEdit (w.mint s.minted) (some ⟨ws, none⟩)) s (s.addVeilidNode w h pos ws) :=
  (allocId_becomes w s).trans (createVeilidUplink_becomes h _ ..)

theorem createNode_becomes (kind : NodeKind) (pos : Vec2) (ws : NodeId) :
    Becomes (NodeEdit (w.mint s.minted) (some ⟨ws, none⟩)) s (s.createNode w h kind pos ws) := by
  have allocated : Becomes (NodeEdit (w.mint s.minted) (some ⟨ws, none⟩)) s (s.allocId w).2 :=
    allocId_becomes w s
  cases kind with
  | app dep =>
    simp only [createNode]
    split
    · exact ⟨.perform .refl ⟨rfl, rfl⟩, rfl, Nat.le_succ _⟩
    · exact .refl s
  | volume => exact addVirtualFile_becomes w s pos ws
  | bindMount => exact addHostMappedFile_becomes w s pos ws
  | port => exact addHostPort_becomes w s pos ws
  | iroh => exact addIrohNode_becomes w h s pos ws
  | veilid => exact addVeilidNode_becomes w h s pos ws
  | midiIn =>
    exact (allocated.trans (place_becomes _ (by rfl) ..)).trans (openMidiDevice_becomes h _ _)
  | midiOut =>
    exact (allocated.trans (place_becomes _ (by rfl) ..)).trans (openMidiOutDevice_becomes h _ _)
  | multicast => exact allocated.trans (createMulticast_becomes h _ ..)
  | _ => exact addPlain_becomes w s (by rfl) ..

theorem setHostPort_becomes {id : NodeId} {spot : Option Spot} (port : Nat) :
    Becomes (NodeEdit id spot) s (s.setHostPort id port) := by
  unfold setHostPort
  split
  · exact .refl s
  · split
    · exact .refl s
    · exact ⟨.perform (.perform .refl ⟨rfl, nofun⟩) trivial, rfl, le_rfl⟩

theorem changePort_becomes {id : NodeId} {spot : Option Spot} (delta : Int) :
    Becomes (NodeEdit id spot) s (s.changePort id delta) := by
  unfold changePort
  split
  · exact .refl s
  · exact setHostPort_becomes s _

theorem setBindPath_becomes {id : NodeId} {spot : Option Spot} (path : String) :
    Becomes (NodeEdit id spot) s (s.setBindPath w h id path) := by
  unfold setBindPath
  split
  · exact ⟨.perform .refl ⟨rfl, nofun⟩, rfl, le_rfl⟩
  · exact .refl s

theorem setMidiDevice_becomes {id : NodeId} {spot : Option Spot} (want : String) :
    Becomes (NodeEdit id spot) s (s.setMidiDevice h id want) := by
  unfold setMidiDevice
  split
  · exact (update_becomes s (by nofun)).trans (openMidiDevice_becomes h _ _)
  · exact (update_becomes s (by nofun)).trans (openMidiOutDevice_becomes h _ _)
  · exact .refl s

theorem setMulticastConfig_becomes {id : NodeId} {spot : Option Spot} (cfg : Mcast) :
    Becomes (NodeEdit id spot) s (s.setMulticastConfig h id cfg) := by
  unfold setMulticastConfig
  split
  · exact .refl s
  · dsimp only
    split
    · exact update_becomes s nofun
    · exact .refl s

theorem setNodeToken_becomes {id : NodeId} {spot : Option Spot} (token : Bytes) :
    Becomes (NodeEdit id spot) s (s.setNodeToken w id token) := by
  unfold setNodeToken
  split
  · exact .refl s
  · split
    · exact ⟨.perform .refl ⟨rfl, nofun⟩, rfl, le_rfl⟩
    · split
      · exact .refl s
      · exact ⟨.perform .refl ⟨rfl, nofun⟩, rfl, le_rfl⟩

/-- One field of a patch edits the patched node alone, if its setter does. -/
theorem patchField_becomes {α : Type} {ok : Graph → Edit → Prop} {s s' : Server start}
    (so : Becomes ok s s') (field : Option α) {f : Server start → α → Server start}
    (setter : ∀ s v, Becomes ok s (f s v)) : Becomes ok s (s'.patchField field f) := by
  unfold patchField
  split
  · exact so.trans (setter _ _)
  · exact so

theorem updateNode_becomes {id : NodeId} {spot : Option Spot} (patch : NodePatch) :
    Becomes (NodeEdit id spot) s (s.updateNode w h id patch) := by
  unfold updateNode
  refine patchField_becomes ?_ _ fun s _ => update_becomes s nofun
  refine patchField_becomes ?_ _ fun s _ => update_becomes s nofun
  refine patchField_becomes ?_ _ fun s name => ?_
  refine patchField_becomes ?_ _ fun s _ => setMidiDevice_becomes h s _
  refine patchField_becomes ?_ _ fun s _ => setBindPath_becomes w h s _
  refine patchField_becomes ?_ _ fun s _ => update_becomes s nofun
  refine patchField_becomes ?_ _ fun s _ => setHostPort_becomes s _
  refine patchField_becomes ?_ _ fun s _ => changePort_becomes s _
  refine patchField_becomes ?_ _ fun s _ => setNodeArgs_becomes s _
  refine patchField_becomes ?_ _ fun s _ => update_becomes s nofun
  refine patchField_becomes ?_ _ fun s shown => update_becomes s fun _ => by cases shown <;> nofun
  refine patchField_becomes ?_ _ fun s _ => update_becomes s nofun
  refine patchField_becomes (.refl s) _ fun s _ => update_becomes s nofun
  split
  · exact .refl s
  · exact update_becomes s nofun

/-! ## Removing and expanding -/

/-- Every edit on the way was emitted. -/
def Emits (strict : Prop) (s s' : Server start) : Prop :=
  s.history.Leads (Emitted strict) s'.history

variable {s}

theorem Becomes.emits {ok : Graph → Edit → Prop} {s' : Server start} (became : Becomes ok s s')
    (weaker : ∀ g e, ok g e → Emitted strict g e) : Emits strict s s' := became.leads.mono weaker

theorem Becomes.wires {s' : Server start} (became : Becomes (WireEdit strict) s s') : Emits strict s s' :=
  became.emits fun _ _ wire => wire.1

theorem Becomes.node {id : NodeId} {spot : Option Spot} {s' : Server start}
    (became : Becomes (NodeEdit id spot) s s') :
    Emits strict s s' := became.emits NodeEdit.emitted

theorem Becomes.update {id : NodeId} {s' : Server start} (became : Becomes (NodeEdit id none) s s') :
    Emits strict s s' := became.node

/-- What is emitted depends on the history alone. -/
theorem Emits.since {s₀ s' : Server start} (emits : Emits strict s₀ s') (same : s₀.history = s.history) :
    Emits strict s s' := by
  unfold Emits at emits ⊢
  rwa [← same]

theorem Emits.trans {s' s'' : Server start} (first : Emits strict s s') (second : Emits strict s' s'') :
    Emits strict s s'' := History.Leads.trans first second

theorem leads_foldl {α : Type} {ok : Graph → Edit → Prop} {f : Server start → α → Server start}
    (xs : List α) (turn : ∀ s : Server start, ∀ x ∈ xs, s.history.Leads ok (f s x).history) :
    s.history.Leads ok (xs.foldl f s).history := by
  refine List.foldlRecOn (motive := fun s' => s.history.Leads ok s'.history) xs f .refl ?_
  intro s' so x member
  exact History.Leads.trans so (turn s' x member)

theorem emits_foldl {α : Type} {f : Server start → α → Server start} (xs : List α)
    (turn : ∀ s, ∀ x ∈ xs, Emits strict s (f s x)) : Emits strict s (xs.foldl f s) :=
  leads_foldl xs turn

variable (s)

end Server

/-- An edit of wires, or the removal of a node. -/
def Removal (strict : Prop) (g : Graph) (e : Edit) : Prop :=
  WireEdit strict g e ∨ ∃ order id, e = .remove order id ∧ ∀ keys, (order keys).Perm keys

theorem Removal.emitted {g : Graph} {e : Edit} (removal : Removal strict g e) : Emitted strict g e := by
  rcases removal with wire | ⟨order, id, rfl, perm⟩
  · exact wire.1
  · exact perm

namespace Server

variable {start : Graph} (w : World) (h : Host) (s : Server start)

theorem removeLeaf_removes (id : NodeId) :
    s.history.Leads (Removal strict) (s.removeLeaf w h id).history :=
  .perform .refl (.inr ⟨_, _, rfl, h.pairs_perm⟩)

theorem removeWith_removes {tearDown : Server start → NodeId → Server start}
    (down : ∀ (s : Server start) id, s.history.Leads (Removal strict) (tearDown s id).history) (id : NodeId) :
    s.history.Leads (Removal strict) (s.removeWith w h tearDown id).history := by
  unfold removeWith
  split
  · exact .refl
  · exact (down s id).trans (removeLeaf_removes w h _ id)
  · exact removeLeaf_removes w h s id

theorem tearDownInstance_removes (fuel : Nat) : ∀ (s : Server start) (id : NodeId),
    s.history.Leads (Removal strict) (tearDownInstance w h fuel s id).history := by
  induction fuel with
  | zero => exact fun s id => .refl
  | succ fuel ih =>
    intro s id
    have nested : s.history.Leads (Removal strict)
        ((s.nestedIn id).foldl (fun s child => tearDownInstance w h fuel s child) s).history :=
      leads_foldl _ fun s child _ => ih s child
    unfold tearDownInstance
    dsimp only
    split
    · exact nested
    · next rec _ =>
        have unwired : ∀ s : Server start, s.history.Leads (Removal strict)
            (rec.wires.foldl (fun s wire => s.unwireRel w h wire.1 wire.2.1 wire.2.2) s).history :=
          fun s => leads_foldl _ fun s wire _ =>
            (unwireRel_becomes w h s wire.1 wire.2.1 wire.2.2).leads.mono fun _ _ => Or.inl
        have removed : ∀ s : Server start, s.history.Leads (Removal strict)
            (rec.nodes.foldl (removeWith w h (tearDownInstance w h fuel)) s).history :=
          fun s => leads_foldl _ fun s n _ => removeWith_removes w h s ih n
        refine nested.trans ?_
        generalize (s.nestedIn id).foldl (fun s child => tearDownInstance w h fuel s child) s = s₁
        exact (unwired { s₁ with instances := s₁.instances.erase id }).trans (removed _)

theorem removeAny_removes (id : NodeId) :
    s.history.Leads (Removal strict) (s.removeAny w h id).history :=
  removeWith_removes w h s (tearDownInstance_removes w h _) id

theorem removeAny_emits (id : NodeId) : Emits strict s (s.removeAny w h id) :=
  (removeAny_removes w h s id).mono fun _ _ => Removal.emitted

theorem removeWorkspace_emits (id : NodeId) : Emits strict s (s.removeWorkspace w h id) := by
  unfold removeWorkspace
  split
  · exact .refl
  · exact .perform (emits_foldl _ fun s n _ => removeAny_emits w h s n) trivial

theorem setInstanceWires_history (id : NodeId) (wires : List (WireRel × NodeId × NodeId)) :
    (s.setInstanceWires id wires).history = s.history := by
  unfold setInstanceWires
  split <;> rfl

theorem instantiateContent_emits (content : Workspace) :
    Emits strict s (s.instantiateContent w h content).1 := by
  have placed : Emits strict s (content.nodes.foldl (fun s snap => s.materialize w h content.id snap []) s) :=
    emits_foldl _ fun s snap _ => (materialize_becomes w h s content.id snap []).node
  exact placed.trans (applyWires_becomes w h _ content).wires

theorem addInstance_emits (inst : Instancing.Instance) : Emits strict s (s.addInstance w h inst) := by
  unfold addInstance Emits
  dsimp only
  rw [setInstanceWires_history]
  exact (instantiateContent_emits w h _ inst.content).since rfl

theorem expandGroup_emits (ws id : NodeId) : Emits strict s (s.expandGroup w h ws id) := by
  unfold expandGroup
  split
  · exact .refl
  · split
    · exact .refl
    · exact emits_foldl _ fun s inst _ => addInstance_emits w h s inst

theorem rewireInstance_emits (inst : Instancing.Instance) : Emits strict s (s.rewireInstance w h inst) := by
  unfold rewireInstance
  dsimp only
  split
  · exact .refl
  · next rec _ =>
      unfold Emits
      rw [setInstanceWires_history]
      have unwired : ∀ (s : Server start) (wires : List (WireRel × NodeId × NodeId)),
          Emits strict s (wires.foldl (fun s wire => s.unwireRel w h wire.1 wire.2.1 wire.2.2) s) :=
        fun s wires => emits_foldl _ fun s wire _ => (unwireRel_becomes w h s ..).wires
      have cleared := unwired (s.setInstanceWires inst.id [])
        (rec.wires.filter fun wire => wire ∉ wiresOf inst.content)
      rw [Emits, setInstanceWires_history] at cleared
      exact cleared.trans (applyWires_becomes w h _ inst.content).wires

/-- A group that is rewired is one of which each instance is. -/
theorem rewireGroup_ok {w : World} {h : Host} {s s' : Server start} {ws id : NodeId}
    (done : s.rewireGroup w h ws id = .ok s') :
    ∃ instances : List Instancing.Instance, s' = instances.foldl (rewireInstance w h) s := by
  unfold rewireGroup at done
  cases resolved : s.resolveGroup w ws id with
  | error e => rw [resolved] at done; cases done
  | ok instances =>
    rw [resolved] at done
    cases done
    exact ⟨instances, rfl⟩

theorem rewireGroup_emits {ws id : NodeId} {s' : Server start}
    (done : s.rewireGroup w h ws id = .ok s') : Emits strict s s' := by
  obtain ⟨instances, rfl⟩ := rewireGroup_ok done
  exact emits_foldl _ fun s inst _ => rewireInstance_emits w h s inst

theorem setBoundaryWire_emits (line : BoundaryWire) (wired : Bool) :
    Emits strict s (s.setBoundaryWire w h line wired) := by
  unfold setBoundaryWire
  split
  · dsimp only
    split
    · exact .refl
    · have written : ∀ g : GroupNode, Emits strict s (s.perform (.update line.group (.group g))) :=
        fun g => .perform .refl trivial
      split
      · next done => exact (written _).trans (rewireGroup_emits w h _ done)
      · exact (written _).perform trivial
  · exact .refl

/-! ## Commands, ticks and sessions -/

theorem duplicate_emits (id : NodeId) : Emits strict s (s.duplicate w h id) := by
  unfold duplicate
  split
  · exact .refl
  · dsimp only
    split
    · split
      · exact .refl
      · exact .perform .refl trivial
    · split
      · exact (addVirtualFile_becomes w s ..).node
      · exact (addHostMappedFile_becomes w s ..).node
      · split
        · exact (addHostPort_becomes w s ..).node
        · exact (addPlain_becomes w s (by rfl) ..).node
        · exact (addPlain_becomes w s (by rfl) ..).node
        · exact (addIrohNode_becomes w h s ..).node
        · exact (addVeilidNode_becomes w h s ..).node
        · split
          · exact .refl
          · exact (placeGroup_becomes w s ..).node.trans (expandGroup_emits w h _ _ _)
        · exact .refl

theorem recreate_emits (snap : Snapshot) : Emits strict s (s.recreate w h snap) := by
  unfold recreate
  have restored : Emits strict s (s.materialize w h snap.ws snap.node snap.fileData) :=
    (materialize_becomes w h s snap.ws snap.node snap.fileData).node
  have wired := restored.trans (rewire_becomes w h _ snap.wires).wires
  have lined := wired.trans
    (emits_foldl snap.boundary fun s line _ => setBoundaryWire_emits w h s line true)
  dsimp only
  split
  · exact lined.trans (expandGroup_emits w h _ _ _)
  · exact lined

theorem recreateWorkspace_emits (snap : WsSnapshot) : Emits strict s (s.recreateWorkspace w h snap) := by
  have added : Emits strict s (s.perform (.addTab snap.index snap.id)) := .perform .refl trivial
  -- Whether or not the tab has a name to restore, the nodes follow.
  have refilled : ∀ s' : Server start, Emits strict s s' →
      Emits strict s (snap.nodes.foldl (fun s n =>
        if n.node.kind.isGroup then s.expandGroup w h n.ws n.node.id else s)
          (snap.nodes.foldl (fun s n => s.rewire w h n.wires)
            (snap.nodes.foldl (fun s n => s.materialize w h n.ws n.node n.fileData) s'))) := by
    intro s' so
    have placed := so.trans (emits_foldl snap.nodes fun s n _ =>
      (materialize_becomes w h s n.ws n.node n.fileData).node)
    have wired := placed.trans (emits_foldl snap.nodes fun s n _ => (rewire_becomes w h s n.wires).wires)
    refine wired.trans (emits_foldl snap.nodes fun s n _ => ?_)
    split
    · exact expandGroup_emits w h s _ _
    · exact .refl
  unfold recreateWorkspace
  cases snap.name with
  | none => exact refilled _ added
  | some name => exact refilled _ (added.perform trivial)

theorem applyUndo_emits (u : Undo) : Emits strict s (s.applyUndo w h u) := by
  cases u with
  | pos id pos => exact .perform .refl trivial
  | size id size => exact .perform .refl trivial
  | text id text => exact .perform .refl trivial
  | args id args =>
    simp only [applyUndo]
    split
    · exact (setNodeArgs_becomes s _).update
    · exact .refl
  | port id port =>
    simp only [applyUndo]
    split
    · exact (changePort_becomes s _).update
    · exact .refl
  | wire a b =>
    simp only [applyUndo]
    split
    · next live =>
        simp only [Bool.and_eq_true, nodeExists_iff] at live
        exact (connectToggle_becomes w h s fun _ _ => live).wires
    · exact .refl
  | rewireUnique src newDst oldDst =>
    simp only [applyUndo]
    have parted : Emits strict s (if s.nodeExists src && s.nodeExists newDst && s.graph.wired src newDst
        then s.connectToggle w h src newDst else s) := by
      split
      · next live =>
          simp only [Bool.and_eq_true, nodeExists_iff] at live
          exact (connectToggle_becomes w h s fun _ _ => live.1).wires
      · exact .refl
    cases oldDst with
    | none => exact parted
    | some old =>
      refine parted.trans ?_
      dsimp only
      generalize (if s.nodeExists src && s.nodeExists newDst && s.graph.wired src newDst
        then s.connectToggle w h src newDst else s) = s'
      split
      · next live =>
          simp only [Bool.and_eq_true, nodeExists_iff] at live
          exact (connectToggle_becomes w h s' fun _ _ => live.1).wires
      · exact .refl
  | token id old =>
    simp only [applyUndo]
    split
    · exact .perform .refl trivial
    · exact .refl
  | boundary line wired => exact setBoundaryWire_emits w h s line wired
  | uncreate ids =>
    refine emits_foldl ids fun s id _ => ?_
    split
    · exact removeAny_emits w h s id
    · exact .refl
  | recreate snap => exact recreate_emits w h s snap
  | dropWorkspace id => exact removeWorkspace_emits w h s id
  | recreateWorkspace snap => exact recreateWorkspace_emits w h s snap

/-- The wire that a command forms, if any, joins two nodes that are there. -/
def FormsLive (s : Server start) : Command → Prop
  | .create (.wire a b) => (Wiring.classify a b (s.graph.classOf a) (s.graph.classOf b)).isSome = true →
      a ∈ s.graph.nodes ∧ b ∈ s.graph.nodes
  | _ => True

/-- A command that is not refused wires only nodes that are there. -/
def WiresLive (s : Server start) (cmd : Command) : Prop := s.refuseStructuralEdit cmd = none → s.FormsLive cmd

theorem dispatch_emits {cmd : Command} (live : strict → s.FormsLive cmd) : Emits strict s (s.dispatch w h cmd) := by
  unfold dispatch
  split
  · exact (createNode_becomes w h s ..).node
  · exact (addHostMount_becomes w h s ..).node
  · split
    · exact .refl
    · exact (connectToggle_becomes w h s live).wires
  · exact .perform .refl trivial
  · exact setBoundaryWire_emits w h s ..
  · exact (updateNode_becomes w h s ..).update
  · exact setBoundaryWire_emits w h s ..
  · exact removeAny_emits w h s _
  · exact (unwireRel_becomes w h s ..).wires
  · exact removeWorkspace_emits w h s _
  · exact (setMount_becomes w h s ..).wires
  · exact (setMidiChannel_becomes s ..).wires
  · exact (setMulticastConfig_becomes h s ..).update
  · exact (setServePort_becomes s ..).wires
  · exact (setNodeToken_becomes w s ..).update
  · exact .refl
  · exact .refl
  · exact duplicate_emits w h s _
  · exact .refl
  · split
    · exact .refl
    · exact (applyUndo_emits w h _ _).since rfl

/-- Nothing but the undo stack differs. -/
def OnlyUndo (s s' : Server start) : Prop := s' = { s with undo := s'.undo }

theorem OnlyUndo.trans {s s' s'' : Server start} (first : OnlyUndo s s') (second : OnlyUndo s' s'') :
    OnlyUndo s s'' := by
  unfold OnlyUndo at *
  rw [second, first]

theorem record_onlyUndo (u : Undo) : OnlyUndo s (s.record u) := by
  unfold record
  split <;> rfl

theorem recordBefore_onlyUndo (cmd : Command) : OnlyUndo s (s.recordBefore w h cmd) := by
  unfold recordBefore
  split
  · split
    · rfl
    · split <;> exact record_onlyUndo s _
  · split
    · rfl
    · exact record_onlyUndo s _
  · extract_lets rec? s₁ s₂ s₃ s₄
    have moved : OnlyUndo s s₁ := by
      dsimp only [s₁]
      split
      · exact record_onlyUndo s _
      · rfl
    have sized : OnlyUndo s s₂ := by
      dsimp only [s₂]
      split
      · exact moved.trans (record_onlyUndo s₁ _)
      · exact moved
    have args : OnlyUndo s s₃ := by
      dsimp only [s₃]
      split
      · exact sized.trans (record_onlyUndo s₂ _)
      · exact sized
    have port : OnlyUndo s s₄ := by
      dsimp only [s₄]
      split
      · exact args.trans (record_onlyUndo s₃ _)
      · exact args
    split
    · exact port.trans (record_onlyUndo s₄ _)
    · exact port
  · split
    · exact record_onlyUndo s _
    · rfl
  · split
    · exact record_onlyUndo s _
    · rfl
  · split
    · split
      · exact record_onlyUndo s _
      · rfl
    · rfl
  · split
    · exact record_onlyUndo s _
    · rfl
  · rfl

theorem OnlyUndo.history {s s' : Server start} (only : OnlyUndo s s') : s'.history = s.history := by
  rw [only]

theorem OnlyUndo.formsLive {s s' : Server start} (only : OnlyUndo s s') {cmd : Command}
    (live : s.FormsLive cmd) : s'.FormsLive cmd := by
  rw [only]
  exact live

/-- Recording after the fact adds no edit. -/
theorem Emits.record_if {s s' : Server start} (so : Emits strict s s') (test : Prop) [Decidable test]
    (u : Undo) : Emits strict s (if test then s' else s'.record u) := by
  split
  · exact so
  · unfold Emits
    rw [(record_onlyUndo s' u).history]
    exact so

theorem apply_emits {cmd : Command} (live : strict → s.WiresLive cmd) : Emits strict s (s.apply w h cmd) := by
  have before : ∀ cmd, (strict → s.FormsLive cmd) →
      Emits strict s ((s.recordBefore w h cmd).dispatch w h cmd) := by
    intro cmd live
    have only := recordBefore_onlyUndo w h s cmd
    exact (dispatch_emits w h _ fun asked => only.formsLive (live asked)).since only.history
  unfold apply
  split
  · exact .refl
  · next accepted =>
      have live := fun asked => live asked (Option.not_isSome_iff_eq_none.1 accepted)
      split
      · exact (dispatch_emits w h s live).record_if _ _
      · exact (dispatch_emits w h s live).record_if _ _
      · exact (dispatch_emits w h s live).record_if _ _
      · dsimp only
        rw [ite_not]
        exact (dispatch_emits w h s live).record_if _ _
      · dsimp only
        rw [ite_not]
        exact (dispatch_emits w h s live).record_if _ _
      · exact before cmd live

theorem setNodeAuth_emits (base : Bytes) : Emits strict s (s.setNodeAuth w h base) :=
  .perform .refl trivial

theorem instantiate_emits (saved : Workspace) : Emits strict s (s.instantiate w h saved) := by
  have placed : Emits strict s (saved.nodes.foldl (fun s snap =>
      let s := s.materialize w h saved.id snap []
      if s.nodeExists snap.id then s else { s with unplaced := s.unplaced ++ [(saved.id, snap)] })
        s) := by
    refine emits_foldl _ fun s snap _ => ?_
    have restored : Emits strict s (s.materialize w h saved.id snap []) :=
      (materialize_becomes w h s saved.id snap []).node
    dsimp only
    split
    · exact restored
    · exact restored
  have expanded : ∀ s : Server start, Emits strict s (saved.nodes.foldl (fun s snap =>
      if snap.kind.isGroup then s.expandGroup w h saved.id snap.id else s) s) := by
    intro s
    refine emits_foldl _ fun s snap _ => ?_
    split
    · exact expandGroup_emits w h s _ _
    · exact .refl
  unfold instantiate
  dsimp only at placed ⊢
  exact placed.trans (((applyWires_becomes w h _ saved).wires.trans (expanded _)).since rfl)

/-- Loading a document emits what it should. -/
theorem new_emits {doc : Document} {s : Server (Graph.ofDocument doc)} (loaded : new w h doc = .ok s) :
    Emits strict (fresh doc) s := by
  unfold new at loaded
  cases expanded : Instancing.expand w.digests doc with
  | error e => rw [expanded] at loaded; cases loaded
  | ok instances =>
    rw [expanded] at loaded
    cases loaded
    exact emits_foldl _ fun s ws _ => instantiate_emits w h s ws

/-- Every command of a session met `ok` in the state it was given in. -/
def Asked (ok : Server start → Command → Prop) : Server start → List Step → Prop
  | _, [] => True
  | s, .command h cmd :: rest => ok s cmd ∧ Asked ok (s.step w (.command h cmd)) rest
  | s, st :: rest => Asked ok (s.step w st) rest

/-- What a command meets it also meets in a weaker sense. -/
theorem Asked.mono {ok ok' : Server start → Command → Prop} (weaker : ∀ s cmd, ok s cmd → ok' s cmd)
    {steps : List Step} : ∀ {s : Server start}, s.Asked w ok steps → s.Asked w ok' steps := by
  induction steps with
  | nil => exact fun _ => trivial
  | cons st steps ih =>
    intro s asked
    cases st with
    | command h cmd => exact ⟨weaker s cmd asked.1, ih asked.2⟩
    | tick h => exact ih asked
    | auth h base => exact ih asked

/-- A test of every command in the state it is given in. -/
def checkAsked (test : Server start → Command → Bool) : Server start → List Step → Bool
  | _, [] => true
  | s, .command h cmd :: rest => test s cmd && checkAsked test (s.step w (.command h cmd)) rest
  | s, st :: rest => checkAsked test (s.step w st) rest

theorem asked_of_check {ok : Server start → Command → Prop} {test : Server start → Command → Bool}
    (sound : ∀ s cmd, test s cmd = true → ok s cmd) {steps : List Step} :
    ∀ {s : Server start}, s.checkAsked w test steps = true → s.Asked w ok steps := by
  induction steps with
  | nil => exact fun _ => trivial
  | cons st steps ih =>
    intro s passed
    cases st with
    | command h cmd =>
      rw [checkAsked, Bool.and_eq_true] at passed
      exact ⟨sound s cmd passed.1, ih passed.2⟩
    | tick h => exact ih passed
    | auth h base => exact ih passed

theorem asked_anything {ok : Server start → Command → Prop} (always : ∀ s cmd, ok s cmd)
    (steps : List Step) : ∀ s : Server start, s.Asked w ok steps := by
  induction steps with
  | nil => exact fun _ => trivial
  | cons st steps ih =>
    intro s
    cases st with
    | command h cmd => exact ⟨always s cmd, ih _⟩
    | tick h => exact ih _
    | auth h base => exact ih _

theorem steps_emits {steps : List Step} : ∀ {s : Server start},
    s.Asked w (fun s cmd => strict → s.WiresLive cmd) steps →
      Emits strict s (steps.foldl (step w) s) := by
  induction steps with
  | nil => exact fun _ => .refl
  | cons st steps ih =>
    intro s asked
    cases st with
    | command h cmd => exact (apply_emits w h s asked.1).trans (ih asked.2)
    | tick h => exact (tick_becomes w h s).wires.trans (ih asked)
    | auth h base => exact (setNodeAuth_emits w h s base).trans (ih asked)

/-- The server a session starts from, and the edits it then makes. -/
theorem run_emits {doc : Document} {steps : List Step} {s₀ s : Server (Graph.ofDocument doc)}
    (loaded : new w h doc = .ok s₀)
    (asked : s₀.Asked w (fun s cmd => strict → s.WiresLive cmd) steps)
    (ran : run w h doc steps = .ok s) : s.history.Every (Emitted strict) := by
  unfold run at ran
  rw [loaded] at ran
  cases ran
  exact ((new_emits w h loaded).trans (steps_emits w asked)).every History.every_empty

/-- **What a session emits.** Every edit of a session is one the source's own tests
allow. -/
theorem run_emitted {doc : Document} {steps : List Step} {s : Server (Graph.ofDocument doc)}
    (ran : run w h doc steps = .ok s) : s.history.Every (Emitted False) := by
  cases loaded : new w h doc with
  | error e =>
    rw [run, loaded] at ran
    cases ran
  | ok s₀ => exact run_emits w h loaded (asked_anything w (fun _ _ => False.elim) steps s₀) ran

/-- A session whose wire commands name live nodes wires live nodes only. -/
theorem run_emitted_live {doc : Document} {steps : List Step} {s₀ s : Server (Graph.ofDocument doc)}
    (loaded : new w h doc = .ok s₀) (asked : s₀.Asked w WiresLive steps)
    (ran : run w h doc steps = .ok s) : s.history.Every (Emitted True) :=
  run_emits w h loaded (asked.mono w fun _ _ live _ => live) ran

end Server

end Wk
