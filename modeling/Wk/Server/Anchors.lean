/-
# Wk.Server.Anchors -- both ends of every wire are nodes

`Anchored` says that every wire starts at a live node and ends at one, or, in the
net relation, at a private net on record.  Three edits can break it.  A removal
strips only the wires its node's kind is expected to have, so one of another kind
stays (`Clears`); parting a private net toggles its sides, so a side that is not on
it is put on it instead (`Joined`, `Parts`); and a client may wire ids that are no
nodes.
-/
import Wk.Server.Effects
import Wk.Server.PrivateNets

namespace Wk

open Wk.Library

set_option autoImplicit false

namespace Graph

/-- Every wire has its two ends. -/
structure Anchored (g : Graph) : Prop extends g.Netted where
  source : ∀ r, ∀ l ∈ g.links r, l.1 ∈ g.nodes
  target : ∀ r, r ≠ .netLink → ∀ l ∈ g.links r, l.2 ∈ g.nodes

/-- Removing `id` by its kind strips every wire it has. -/
def Clears (g : Graph) (id : NodeId) (kind : Kind) : Prop :=
  ∀ r, ∀ l ∈ g.links r, (l.1 = id → kind.stripsFrom r = true) ∧ (l.2 = id → kind.stripsTo r = true)

/-- What the edits that can leave a wire dangling have to meet. -/
def KeepsAnchors (g : Graph) : Edit → Prop
  | .mintNet _ net => g.UnusedNet net
  | .dropNet key => g.BothJoined key
  | .remove _ id => ∀ kind, g.kindOf id = some kind →
      g.Clears id kind ∧ (kind.partsNets = true → g.Parts id)
  | _ => True

/-- It is more than every net needs. -/
theorem KeepsAnchors.known {g : Graph} {e : Edit} (emitted : Emitted True g e)
    (keeps : KeepsAnchors g e) : KeepsKnown g e := by
  cases e with
  | toggle r a b =>
    rintro rfl
    exact (emitted trivial).imp_right And.right
  | mintNet key net => exact ⟨emitted.1, keeps⟩
  | dropNet key => exact keeps
  | remove order id =>
    refine ⟨emitted, fun kind kindIs => ?_⟩
    obtain ⟨clears, parts⟩ := keeps kind kindIs
    exact ⟨fun l member => (clears .netLink l member).2, fun _ l member => (clears .netLink l member).1,
      parts⟩
  | _ => trivial

/-- An edit that leaves every wire but memberships, and every node. -/
theorem Anchored.same_others {g g' : Graph} (good : g.Anchored) (nets : g'.Netted)
    (others : ∀ r, r ≠ .netLink → g'.links r = g.links r) (nodes : ∀ n ∈ g.nodes, n ∈ g'.nodes)
    (members : ∀ l ∈ g'.netLinks, l ∈ g.netLinks ∨ l.1 ∈ g.nodes) : g'.Anchored := by
  refine { toNetted := nets, source := ?_, target := ?_ }
  · intro r l member
    by_cases isNet : r = .netLink
    · subst isNet
      exact nodes _ ((members l member).elim (good.source _ l) id)
    · rw [others r isNet] at member
      exact nodes _ (good.source r l member)
  · intro r isNet l member
    rw [others r isNet] at member
    exact nodes _ (good.target r isNet l member)

/-- An edit that leaves every wire and every node. -/
theorem Anchored.same_links {g g' : Graph} (good : g.Anchored) (nets : g'.Netted)
    (links : g'.links = g.links) (nodes : ∀ n ∈ g.nodes, n ∈ g'.nodes) : g'.Anchored :=
  good.same_others nets (fun r _ => by rw [links]) nodes fun l member => .inl (by rwa [netLinks, links] at member)

theorem Anchored.toggle {g : Graph} (good : g.Anchored) {r : WireRel} {a b : NodeId}
    (live : (a, b) ∈ g.links r ∨ (a ∈ g.nodes ∧ b ∈ g.nodes)) : (g.toggle r a b).Anchored := by
  have old : ∀ r' l, l ∈ (g.toggle r a b).links r' → l ∈ g.links r' ∨ (l.1 ∈ g.nodes ∧ l.2 ∈ g.nodes) := by
    intro r' l member
    rcases mem_toggle member with old | ⟨rfl, rfl⟩
    · exact .inl old
    · exact live
  refine { toNetted := good.toNetted.toggle ?_, source := ?_, target := ?_ }
  · rintro rfl
    exact live.imp_right And.right
  · intro r' l member
    exact (old r' l member).elim (good.source r' l) And.left
  · intro r' isNet l member
    exact (old r' l member).elim (good.target r' isNet l) And.right

theorem Anchored.mintNet {g : Graph} (good : g.Anchored) {key : Pair} {net : NodeId}
    (wired : key ∈ g.midiLinks ∨ key.swap ∈ g.midiLinks) (nets : (g.mintNet key net).Netted) :
    (g.mintNet key net).Anchored := by
  have live : key.1 ∈ g.nodes ∧ key.2 ∈ g.nodes := by
    rcases wired with wired | wired
    · exact ⟨good.source .midi _ wired, good.target .midi nofun _ wired⟩
    · exact ⟨good.target .midi nofun _ wired, good.source .midi _ wired⟩
  refine good.same_others nets (fun r isNet => mintNet_other isNet) (fun _ present => present) ?_
  intro l member
  rcases mem_mintNet member with old | rfl | rfl
  · exact .inl old
  · exact .inr live.1
  · exact .inr live.2

theorem Anchored.dropNet {g : Graph} (good : g.Anchored) {key : Pair} (joined : g.BothJoined key) :
    (g.dropNet key).Anchored := by
  have nodes : (g.dropNet key).nodes = g.nodes := by rw [dropNet_toCanvas]
  refine good.same_others (good.toNetted.dropNet joined) (fun r isNet => dropNet_other isNet)
    (fun n present => by rw [nodes]; exact present) ?_
  intro l member
  cases recorded : g.appLinkNets.lookup key with
  | none =>
    rw [dropNet_unrecorded recorded] at member
    exact .inl member
  | some net => exact .inl (good.toNetted.mem_dropNet recorded joined member).1

theorem Anchored.remove {g : Graph} (good : g.Anchored) {order : List Pair → List Pair} {id : NodeId}
    (perm : ∀ keys, (order keys).Perm keys) (keeps : KeepsAnchors g (.remove order id))
    (nets : (g.remove order id).Netted) : (g.remove order id).Anchored := by
  by_cases present : id ∈ g.nodes
  · obtain ⟨kind, kindIs⟩ := Canvas.exists_kindOf present
    obtain ⟨clears, parts⟩ := keeps kind kindIs
    have stripped := dropWires_stripped good.nodup good.apart perm kindIs parts
    have links : (g.remove order id).links = (g.dropWires order id).links := by
      rw [remove_toWires g present]
    -- Whatever wire is left was there before and does not touch the node.
    have left : ∀ r l, l ∈ (g.remove order id).links r → l ∈ g.links r ∧ l.1 ≠ id ∧ l.2 ≠ id := by
      intro r l member
      rw [links] at member
      obtain ⟨old, sourceGone, targetGone, _⟩ := (stripped.links r l).1 member
      obtain ⟨fromIt, toIt⟩ := clears r l old
      exact ⟨old, fun same => sourceGone (fromIt same) same, fun same => targetGone (toIt same) same⟩
    refine { toNetted := nets, source := ?_, target := ?_ }
    · intro r l member
      obtain ⟨old, notSource, _⟩ := left r l member
      exact mem_remove_nodes g (good.source r l old) notSource
    · intro r isNet l member
      obtain ⟨old, _, notTarget⟩ := left r l member
      exact mem_remove_nodes g (good.target r isNet l old) notTarget
  · rw [remove_absent g present]
    exact good

/-- **One edit.** Every emitted edit that keeps the anchors leaves no wire dangling. -/
theorem Anchored.edit {g : Graph} {e : Edit} (emitted : Emitted True g e) (keeps : KeepsAnchors g e)
    (good : g.Anchored) : (e.apply g).Anchored := by
  have nets : (e.apply g).Netted := good.toNetted.edit (keeps.known emitted)
  cases e with
  | toggle r a b => exact good.toggle (emitted trivial)
  | mintNet key net => exact good.mintNet emitted.2 nets
  | dropNet key => exact good.dropNet keeps
  | remove order id => exact good.remove emitted keeps nets
  | place id ws pos size payload =>
    refine good.same_links nets (by rw [Edit.apply, place_toWires]) fun n present => ?_
    rw [Edit.apply, place_nodes]
    exact (AList.mem_insert _).2 (.inr present)
  | pose id pos3d panel3d =>
    cases pos3d <;> cases panel3d <;> exact good.same_links nets rfl fun _ present => present
  | update id u =>
    exact good.same_links nets (by rw [Edit.apply, update_toWires])
      fun n present => (mem_update_nodes g id n u).2 present
  | addTab index id =>
    refine good.same_links nets (by rw [Edit.apply, addTab_toWires]) fun n present => ?_
    simp only [Edit.apply, addTab]
    split <;> exact present
  | removeTab id =>
    refine good.same_links nets (by rw [Edit.apply, removeTab_toWires]) fun n present => ?_
    simp only [Edit.apply, removeTab]
    split <;> exact present
  | _ => exact good.same_links nets rfl fun _ present => present

end Graph

namespace Server

/-- **No dangling wires.** In every session that wires live nodes only, and
whose removals and partings of private nets find the wires they expect, every end of
every link is a node, or in the net relation a private net on record. -/
theorem run_links_anchored {w : World} {h : Host} {doc : Document} {steps : List Step}
    {s₀ s : Server (Graph.ofDocument doc)} (loaded : new w h doc = .ok s₀)
    (asked : s₀.Asked w WiresLive steps) (ran : run w h doc steps = .ok s)
    (met : s.history.Every Graph.KeepsAnchors) :
    ∀ r, ∀ l ∈ s.graph.links r, l.1 ∈ s.graph.nodes ∧
      (l.2 ∈ s.graph.nodes ∨
        (r = .netLink ∧ ∃ key, s.graph.appLinkNets.lookup key = some l.2)) := by
  have both := (run_emitted_live w h loaded asked ran).and met
  have good : s.graph.Anchored := by
    refine s.history.every_keeps (P := fun g => g.Anchored) ?_
      (fun _ _ fits good => good.edit fits.1 fits.2) both
    exact { toNetted := Graph.netted_ofDocument doc, source := nofun, target := nofun }
  intro r l member
  refine ⟨good.source r l member, ?_⟩
  by_cases isNet : r = .netLink
  · subst isNet
    exact (good.known l member).imp_right fun onRecord => ⟨rfl, onRecord⟩
  · exact .inl (good.target r isNet l member)

section Poles

/-- Two apps with a MIDI wire, one of them granted a screen capture. -/
def studioDocument : Document where
  dependencies := [{ name := "synth", source := .path "synth.wasm" }]
  workspaces := [
    { id := 1
      nodes := [
        { id := 10, kind := .app "synth" none [] [] none },
        { id := 11, kind := .app "synth" none [] [] none },
        { id := 12, kind := .capture },
        { id := 13, kind := .note "todo" }]
      links := fun r => match r with
        | .midi => [(10, 11)]
        | .captureLink => [(10, 12)]
        | _ => [] }]

/-- A host on which every component has compiled and imports sockets. -/
def networkedHost : Host := .plain fun _ => some { net := true }

/-- The decidable part of `KeepsAnchors`, for nodes on no private net. -/
def keepsAnchorsTest (g : Graph) : Edit → Bool
  | .mintNet _ net => (g.netLinks.all fun l => l.2 ≠ net) && !(Table.values g.appLinkNets).contains net
  | .dropNet key =>
    match g.appLinkNets.lookup key with
    | some net => (key.1, net) ∈ g.netLinks && (key.2, net) ∈ g.netLinks
    | none => true
  | .remove _ id =>
    match g.kindOf id with
    | some kind => (g.privateKeys id).isEmpty && WireRel.all.all fun r => (g.links r).all fun l =>
      (l.1 ≠ id || kind.stripsFrom r) && (l.2 ≠ id || kind.stripsTo r)
    | none => true
  | _ => true

theorem keepsAnchorsTest_sound (g : Graph) (e : Edit) (passed : keepsAnchorsTest g e = true) :
    Graph.KeepsAnchors g e := by
  cases e with
  | mintNet key net =>
    simp only [keepsAnchorsTest, Bool.and_eq_true, List.all_eq_true, decide_eq_true_eq,
      Bool.not_eq_true', List.contains_eq_mem, decide_eq_false_iff_not] at passed
    exact ⟨passed.1, fun key found => passed.2 (Table.mem_values.2 ⟨key, found⟩)⟩
  | dropNet key =>
    intro _ net found
    simp only [keepsAnchorsTest, found, Bool.and_eq_true, decide_eq_true_eq] at passed
    exact passed
  | remove order id =>
    intro kind kindIs
    simp only [keepsAnchorsTest, kindIs, Bool.and_eq_true, List.isEmpty_iff, List.all_eq_true] at passed
    refine ⟨fun r l member => ?_, fun _ key net found side => ?_⟩
    · have fits := passed.2 r (WireRel.mem_all r) l member
      simp only [Bool.or_eq_true, decide_eq_true_eq] at fits
      exact ⟨fun same => fits.1.resolve_left (absurd same), fun same => fits.2.resolve_left (absurd same)⟩
    · have mine := Graph.mem_privateKeys.2 ⟨Table.mem_of_lookup found, side⟩
      rw [passed.1] at mine
      exact absurd mine List.not_mem_nil
  | _ => trivial

/-- The MIDI wire is taken off, and the note deleted. -/
def studioSteps : List Step :=
  [.tick networkedHost, .command networkedHost (.delete (.wire (.midi 10 11))),
    .command networkedHost (.delete (.node 13))]

theorem run_links_anchored_studio :
    ∃ s, run .plain networkedHost studioDocument studioSteps = .ok s ∧
      s.graph.netLinks = [] ∧ s.graph.captureLinks = [(10, 12)] ∧
      ∀ l ∈ s.graph.captureLinks, l.1 ∈ s.graph.nodes := by
  have seen : (run .plain networkedHost studioDocument studioSteps).toOption.map
      (fun s => (s.graph.netLinks, s.graph.captureLinks, s.history.check keepsAnchorsTest)) =
        some ([], [(10, 12)], true) := by
    decide
  obtain ⟨s, ran, seen⟩ := ok_of_observed seen
  simp only [Prod.mk.injEq] at seen
  obtain ⟨nets, captures, passes⟩ := seen
  have met := s.history.every_of_check keepsAnchorsTest_sound passes
  cases loaded : new .plain networkedHost studioDocument with
  | error e =>
    rw [run, loaded] at ran
    cases ran
  | ok s₀ =>
    have asked : s₀.Asked .plain WiresLive studioSteps := ⟨fun _ => trivial, fun _ => trivial, trivial⟩
    exact ⟨s, ran, nets, captures, fun l member =>
      (run_links_anchored loaded asked ran met .captureLink l member).1⟩

/-- Deleting an app leaves the capture it was granted. -/
theorem deleted_app_keeps_capture :
    ∃ s, run .plain networkedHost studioDocument [.command networkedHost (.delete (.node 10))] = .ok s ∧
      (10, 12) ∈ s.graph.captureLinks ∧ 10 ∉ s.graph.nodes := by
  have seen : (run .plain networkedHost studioDocument
      [.command networkedHost (.delete (.node 10))]).toOption.map
        (fun s => (decide ((10, 12) ∈ s.graph.captureLinks), decide (10 ∉ s.graph.nodes))) =
      some (true, true) := by
    decide
  obtain ⟨s, ran, seen⟩ := ok_of_observed seen
  simp only [Prod.mk.injEq, decide_eq_true_eq] at seen
  exact ⟨s, ran, seen⟩

end Poles

end Server

end Wk
