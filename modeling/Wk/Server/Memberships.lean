/-
# Wk.Server.Memberships -- private nets leave authored networks alone

A private net shares the net relation, one membership per app, with the networks a
user wires.  Minting one for an app that is on a network takes the app off it, and
dropping or pruning one whose members have gone elsewhere puts them back.  Where no
edit meets its members like that (`KeepsNets`), an authored membership is lost only
to an edit that is about it (`Parting`), and what the private nets do is invisible to
every other membership (`Undisturbed`).
-/
import Wk.Server.Effects
import Wk.Server.PrivateNets

namespace Wk

open Wk.Library

set_option autoImplicit false

namespace Graph

/-- A Network or Gateway node on the canvas. -/
def PlacedNet (g : Graph) (n : NodeId) : Prop := ∃ kind, g.kindOf n = some kind ∧ kind.isNet = true

theorem PlacedNet.mem_nodes {g : Graph} {n : NodeId} (placed : g.PlacedNet n) : n ∈ g.nodes := by
  obtain ⟨kind, kindIs, _⟩ := placed
  exact Canvas.mem_nodes_of_kindOf kindIs

/-- The edits that are about the membership of `app` in `net`: its wire toggled, one
of its ends removed, or the app joined to another placed network. -/
def Parting (g : Graph) (app net : NodeId) : Edit → Prop
  | .toggle r a b => r = .netLink ∧ a = app ∧ (b = net ∨ g.PlacedNet b)
  | .remove _ id => id = app ∨ id = net
  | _ => False

/-- What an edit leaves of the memberships it is not about. -/
structure Undisturbed (g : Graph) (e : Edit) : Prop where
  lost : ∀ app net, (app, net) ∈ g.netLinks → g.PlacedNet net → (app, net) ∉ (e.apply g).netLinks →
    g.Parting app net e
  minting : ∀ key net, e = .mintNet key net → ∀ l : Pair, l.2 ≠ net →
    (l ∈ (e.apply g).netLinks ↔ l ∈ g.netLinks)
  dropping : ∀ key, e = .dropNet key → ∀ l : Pair,
    (∀ net, g.appLinkNets.lookup key = some net → l.2 ≠ net) →
      (l ∈ (e.apply g).netLinks ↔ l ∈ g.netLinks)
  pruning : ∀ order id, e = .remove order id → ∀ l : Pair, l.1 ≠ id → l.2 ≠ id →
    (∀ key net, g.appLinkNets.lookup key = some net → key.1 = id ∨ key.2 = id → l.2 ≠ net) →
      (l ∈ (e.apply g).netLinks ↔ l ∈ g.netLinks)

/-- What an edit has to find for private nets to leave authored ones alone: members
join placed networks; a private net's id is new, and stays its own; a private net is
minted for two apps that are on no network, and parted with its members on it; and a
removed node's memberships are those its kind's removal strips. -/
def KeepsNets (g : Graph) : Edit → Prop
  | .toggle r a b => r = .netLink → (a, b) ∈ g.netLinks ∨ g.PlacedNet b
  | .mintNet key net => (g.UnusedNet net ∧ net ∉ g.nodes) ∧ g.Joins key
  | .place id _ _ _ _ => ∀ key, g.appLinkNets.lookup key ≠ some id
  | .dropNet key => g.BothJoined key ∧ (key.1 = key.2 → key ∈ g.appLinkNets → g.Joins key)
  | .remove _ id => ∀ kind, g.kindOf id = some kind → g.ClearsNets id kind
  | _ => True

theorem KeepsNets.known {g : Graph} {e : Edit} (emitted : Emitted False g e) (keeps : KeepsNets g e) :
    KeepsKnown g e := by
  cases e with
  | toggle r a b => exact fun isNet => (keeps isNet).imp_right PlacedNet.mem_nodes
  | mintNet key net => exact ⟨emitted.1, keeps.1.1⟩
  | dropNet key => exact keeps.1
  | remove order id => exact ⟨emitted, keeps⟩
  | _ => trivial

/-- Toggling on and off a wire whose source has none changes nothing. -/
theorem mem_toggle_on_off {g : Graph} (nodup : g.NodupLinks) {r : WireRel} {a b : NodeId}
    (free : ∀ l ∈ g.links r, l.1 ≠ a) {l : Pair} :
    l ∈ ((g.toggle r a b).toggle r a b).links r ↔ l ∈ g.links r := by
  have once : ∀ {l}, l ∈ (g.toggle r a b).links r ↔ l ∈ g.links r ∨ l = (a, b) :=
    mem_toggle_free nodup free
  rw [mem_toggle_present (toggle_nodup nodup r a b) (once.2 (.inr rfl)), once]
  constructor
  · rintro ⟨old | new, other⟩
    · exact old
    · exact absurd new other
  · exact fun old => ⟨.inl old, fun same => free l old (by rw [same])⟩

/-- A net minted for apps that are on none leaves every other membership. -/
theorem mintNet_undisturbed {g : Graph} (nodup : g.NodupLinks) {key : Pair} {net : NodeId}
    (joins : g.Joins key) {l : Pair} (other : l.2 ≠ net) :
    l ∈ (g.mintNet key net).netLinks ↔ l ∈ g.netLinks := by
  by_cases self : key.1 = key.2
  · have twice : (g.mintNet key net).netLinks =
        ((g.toggle .netLink key.1 net).toggle .netLink key.1 net).links .netLink := by
      show ((g.toggle .netLink key.1 net).toggle .netLink key.2 net).links .netLink = _
      rw [self]
    rw [twice]
    exact mem_toggle_on_off nodup fun l member => (joins l member).1
  · rw [mem_mintNet_joins nodup joins self]
    constructor
    · rintro (old | rfl | rfl)
      · exact old
      · exact absurd rfl other
      · exact absurd rfl other
    · exact .inl

/-- A net dropped with its members on it leaves every other membership. -/
theorem dropNet_undisturbed {g : Graph} (nodup : g.NodupLinks) {key : Pair} {net : NodeId}
    (found : g.appLinkNets.lookup key = some net) (joined : g.BothJoined key)
    (joins : key.1 = key.2 → g.Joins key) {l : Pair} (other : l.2 ≠ net) :
    l ∈ (g.dropNet key).netLinks ↔ l ∈ g.netLinks := by
  by_cases self : key.1 = key.2
  · simp only [Graph.dropNet, found, ← self]
    exact mem_toggle_on_off (g := { g with appLinkNets := g.appLinkNets.erase key }) nodup
      fun l member => (joins self l member).1
  · rw [mem_dropNet_joined nodup found (joined self net found) self]
    constructor
    · exact And.left
    · intro old
      refine ⟨old, ?_, ?_⟩
      · rintro rfl
        exact other rfl
      · rintro rfl
        exact other rfl

/-- A removal that finds its memberships leaves every membership that is neither its
node's nor on one of its private nets. -/
theorem remove_undisturbed {g : Graph} (good : g.Netted) {order : List Pair → List Pair} {id : NodeId}
    (perm : ∀ keys, (order keys).Perm keys)
    (clears : ∀ kind, g.kindOf id = some kind → g.ClearsNets id kind) {l : Pair}
    (notSource : l.1 ≠ id) (notTarget : l.2 ≠ id)
    (elsewhere : ∀ key net, g.appLinkNets.lookup key = some net → key.1 = id ∨ key.2 = id →
      l.2 ≠ net) : l ∈ (g.remove order id).netLinks ↔ l ∈ g.netLinks := by
  by_cases present : id ∈ g.nodes
  · obtain ⟨kind, kindIs⟩ := Canvas.exists_kindOf present
    have stripped := dropWires_stripped good.nodup good.apart perm kindIs (clears kind kindIs).parts
    have links : (g.remove order id).links = (g.dropWires order id).links := by
      rw [remove_toWires g present]
    rw [netLinks, links, stripped.links]
    constructor
    · exact And.left
    · intro old
      refine ⟨old, fun _ => notSource, fun _ => notTarget, fun _ _ key net found side same => ?_⟩
      exact elsewhere key net found side (by rw [same])
  · rw [remove_absent g present]

/-- A toggle takes at most its own wire and the other wires of its source. -/
theorem mem_toggle_lost {g : Graph} {r : WireRel} {a b : NodeId} {l : Pair} (here : l ∈ g.links r)
    (gone : l ∉ (g.toggle r a b).links r) : l = (a, b) ∨ (l.1 = a ∧ (a, b) ∉ g.links r) := by
  rw [toggle_links, if_pos rfl] at gone
  by_cases present : (a, b) ∈ g.links r
  · left
    by_contra other
    apply gone
    split
    · rw [Wiring.toggleUnique_of_mem present]
      exact (List.mem_erase_of_ne other).2 here
    · rw [Wiring.togglePair_of_mem present]
      exact (List.mem_erase_of_ne other).2 here
  · right
    refine ⟨?_, present⟩
    by_contra other
    apply gone
    split
    · rw [Wiring.toggleUnique_of_not_mem present]
      exact List.mem_append_left _ (List.mem_filter.2 ⟨here, by simpa using other⟩)
    · rw [Wiring.togglePair_of_not_mem present]
      exact List.mem_append_left _ here

/-- No node has the id of a private net on record. -/
def NetsUnplaced (g : Graph) : Prop := ∀ key net, g.appLinkNets.lookup key = some net → net ∉ g.nodes

/-- Fewer records among no more nodes. -/
theorem NetsUnplaced.mono {g g' : Graph} (good : g.NetsUnplaced)
    (nets : ∀ key net, g'.appLinkNets.lookup key = some net → g.appLinkNets.lookup key = some net)
    (nodes : ∀ n ∈ g'.nodes, n ∈ g.nodes) : g'.NetsUnplaced :=
  fun key net found present => good key net (nets key net found) (nodes net present)

/-- An edit that changes neither. -/
theorem NetsUnplaced.congr {g g' : Graph} (good : g.NetsUnplaced) (wires : g'.toWires = g.toWires)
    (nodes : ∀ n ∈ g'.nodes, n ∈ g.nodes) : g'.NetsUnplaced :=
  good.mono (fun key net found => by rwa [wires] at found) nodes

theorem NetsUnplaced.remove {g : Graph} (good : g.NetsUnplaced) (netted : g.Netted)
    {order : List Pair → List Pair} {id : NodeId} (perm : ∀ keys, (order keys).Perm keys)
    (clears : ∀ kind, g.kindOf id = some kind → g.ClearsNets id kind) :
    (g.remove order id).NetsUnplaced := by
  by_cases present : id ∈ g.nodes
  · obtain ⟨kind, kindIs⟩ := Canvas.exists_kindOf present
    have stripped :=
      dropWires_stripped netted.nodup netted.apart perm kindIs (clears kind kindIs).parts
    have nets : (g.remove order id).appLinkNets = (g.dropWires order id).appLinkNets := by
      rw [remove_toWires g present]
    refine good.mono (fun key net found => ?_) fun n here => ?_
    · rw [nets, stripped.nets] at found
      split at found
      · cases found
      · exact found
    · rw [Graph.remove, if_pos present, forget_nodes, unwire_nodes] at here
      exact (AList.mem_erase.1 here).2
  · rw [remove_absent g present]
    exact good

theorem NetsUnplaced.edit {g : Graph} {e : Edit} (emitted : Emitted False g e) (keeps : KeepsNets g e)
    (netted : g.Netted) (good : g.NetsUnplaced) : (e.apply g).NetsUnplaced := by
  cases e with
  | mintNet key net =>
    intro k n found
    have record : (g.appLinkNets.insert key net).lookup k = some n := found
    rw [Table.lookup_insert_eq] at record
    split at record
    · cases record
      exact keeps.1.2
    · exact good k n record
  | dropNet key =>
    refine good.mono (fun k n found => ?_) fun n here => ?_
    · rw [Edit.apply, dropNet_lookup] at found
      split at found
      · cases found
      · exact found
    · rwa [Edit.apply, dropNet_toCanvas] at here
  | place id ws pos size payload =>
    intro key net found
    rw [Edit.apply, place_toWires] at found
    rw [Edit.apply, place_nodes, AList.mem_insert]
    rintro (same | here)
    · exact keeps key (same ▸ found)
    · exact good key net found here
  | remove order id => exact good.remove netted emitted keeps
  | pose id pos3d panel3d =>
    cases pos3d <;> cases panel3d <;> exact good.congr rfl fun _ here => here
  | update id u => exact good.congr (update_toWires ..) fun n here => (mem_update_nodes g id n u).1 here
  | addTab index id =>
    refine good.congr (addTab_toWires ..) fun n here => ?_
    simp only [Edit.apply, addTab] at here
    split at here <;> exact here
  | removeTab id =>
    refine good.congr (removeTab_toWires ..) fun n here => ?_
    simp only [Edit.apply, removeTab] at here
    split at here <;> exact here
  | _ => exact good

/-- Every edit that does not touch the memberships leaves them undisturbed. -/
theorem undisturbed_same {g : Graph} {e : Edit} (same : (e.apply g).netLinks = g.netLinks) :
    Undisturbed g e where
  lost := fun app net here _ gone => absurd (same ▸ here) gone
  minting := fun _ _ _ l _ => by rw [same]
  dropping := fun _ _ l _ => by rw [same]
  pruning := fun _ _ _ l _ _ _ => by rw [same]

/-- **One edit.** Where it finds its members in their place, an edit leaves every
membership it is not about. -/
theorem undisturbed_edit {g : Graph} {e : Edit} (emitted : Emitted False g e) (keeps : KeepsNets g e)
    (netted : g.Netted) (unplaced : g.NetsUnplaced) : Undisturbed g e := by
  cases e with
  | toggle r a b =>
    by_cases isNet : r = .netLink
    · subst isNet
      refine ⟨fun app net here placed gone => ?_, nofun, nofun, nofun⟩
      rcases mem_toggle_lost here gone with same | ⟨same, absent⟩
      · exact ⟨rfl, (Prod.mk.inj same).1.symm, .inl (Prod.mk.inj same).2.symm⟩
      · exact ⟨rfl, same.symm, .inr ((keeps rfl).resolve_left absent)⟩
    · exact undisturbed_same (toggle_other (Ne.symm isNet) a b)
  | mintNet key net =>
    have rest : ∀ l : Pair, l.2 ≠ net → (l ∈ (g.mintNet key net).netLinks ↔ l ∈ g.netLinks) :=
      fun l other => mintNet_undisturbed netted.nodup keeps.2 other
    refine ⟨fun app n here placed gone => ?_, ?_, nofun, nofun⟩
    · exact absurd ((rest (app, n) (keeps.1.1.1 _ here)).2 here) gone
    · rintro _ _ ⟨rfl, rfl⟩
      exact rest
  | dropNet key =>
    have rest : ∀ l : Pair, (∀ net, g.appLinkNets.lookup key = some net → l.2 ≠ net) →
        (l ∈ (g.dropNet key).netLinks ↔ l ∈ g.netLinks) := by
      intro l other
      cases found : g.appLinkNets.lookup key with
      | none => rw [dropNet_unrecorded found]
      | some net =>
        exact dropNet_undisturbed netted.nodup found keeps.1
          (fun self => keeps.2 self (Table.mem_of_lookup found)) (other net found)
    refine ⟨fun app n here placed gone => ?_, nofun, ?_, nofun⟩
    · refine absurd ((rest (app, n) fun net found same => ?_).2 here) gone
      exact unplaced key net found (same ▸ placed.mem_nodes)
    · rintro _ ⟨rfl⟩
      exact rest
  | remove order id =>
    have rest : ∀ l : Pair, l.1 ≠ id → l.2 ≠ id →
        (∀ key net, g.appLinkNets.lookup key = some net → key.1 = id ∨ key.2 = id → l.2 ≠ net) →
        (l ∈ (g.remove order id).netLinks ↔ l ∈ g.netLinks) :=
      fun l notSource notTarget elsewhere =>
        remove_undisturbed netted emitted keeps notSource notTarget elsewhere
    refine ⟨fun app n here placed gone => ?_, nofun, nofun, ?_⟩
    · by_contra stays
      have apart : app ≠ id ∧ n ≠ id :=
        ⟨fun same => stays (.inl same.symm), fun same => stays (.inr same.symm)⟩
      refine gone ((rest (app, n) apart.1 apart.2 fun key net found _ same => ?_).2 here)
      exact unplaced key net found (same ▸ placed.mem_nodes)
    · rintro _ _ ⟨rfl, rfl⟩
      exact rest
  | place id ws pos size payload =>
    exact undisturbed_same (by rw [Edit.apply, netLinks, place_toWires])
  | pose id pos3d panel3d =>
    cases pos3d <;> cases panel3d <;> exact undisturbed_same rfl
  | update id u => exact undisturbed_same (by rw [Edit.apply, netLinks, update_toWires])
  | addTab index id => exact undisturbed_same (by rw [Edit.apply, netLinks, addTab_toWires])
  | removeTab id => exact undisturbed_same (by rw [Edit.apply, netLinks, removeTab_toWires])
  | _ => exact undisturbed_same rfl

end Graph

namespace Server

/-- **Private nets disturb no authored network.** In every session whose edits find
their members in their place, each edit leaves the memberships it is not about, and
every membership leads to a node or to a private net on record. -/
theorem run_nets_undisturbed {w : World} {h : Host} {doc : Document} {steps : List Step}
    {s : Server (Graph.ofDocument doc)} (ran : run w h doc steps = .ok s)
    (met : s.history.Every Graph.KeepsNets) :
    s.history.Every Graph.Undisturbed ∧
    ∀ l ∈ s.graph.netLinks,
      l.2 ∈ s.graph.nodes ∨ ∃ key, s.graph.appLinkNets.lookup key = some l.2 := by
  have both := (run_emitted w h ran).and met
  have first : (Graph.ofDocument doc).Netted ∧ (Graph.ofDocument doc).NetsUnplaced :=
    ⟨Graph.netted_ofDocument doc, nofun⟩
  have turn : ∀ (g : Graph) (e : Edit), Emitted False g e ∧ Graph.KeepsNets g e →
      g.Netted ∧ g.NetsUnplaced → (e.apply g).Netted ∧ (e.apply g).NetsUnplaced :=
    fun g e fits good => ⟨good.1.edit (fits.2.known fits.1), good.2.edit fits.1 fits.2 good.1⟩
  refine ⟨both.given first turn fun g e fits good =>
    Graph.undisturbed_edit fits.1 fits.2 good.1 good.2, ?_⟩
  have good : s.graph.Netted ∧ s.graph.NetsUnplaced := s.history.every_keeps first turn both
  exact good.1.known

section Poles

/-- Two apps with a MIDI wire, and a third on a Network. -/
def bandDocument : Document where
  dependencies := [{ name := "synth", source := .path "synth.wasm" }]
  workspaces := [
    { id := 1
      nodes := [
        { id := 10, kind := .app "synth" none [] [] none },
        { id := 11, kind := .app "synth" none [] [] none },
        { id := 12, kind := .app "synth" none [] [] none },
        { id := 13, kind := .net false }]
      links := fun r => match r with
        | .midi => [(10, 11)]
        | .netLink => [(12, 13)]
        | _ => [] }]

/-- The same with the first app on the Network instead. -/
def crossedDocument : Document where
  dependencies := bandDocument.dependencies
  workspaces := bandDocument.workspaces.map fun ws =>
    { ws with links := fun r => match r with
        | .netLink => [(10, 13)]
        | r => ws.links r }

/-- Components that are still compiling, and the same once they have compiled and do
networking. -/
def loadingHost : Host := .plain fun _ => none
def socketHost : Host := .plain fun _ => some { net := true }

/-- The decidable part of `KeepsNets`, for sessions that remove nothing. -/
def keepsNetsTest (g : Graph) : Edit → Bool
  | .toggle r a b => r ≠ .netLink || (a, b) ∈ g.netLinks || (g.kindOf b).any Kind.isNet
  | .mintNet key net =>
    (g.netLinks.all fun l => l.2 ≠ net && l.1 ≠ key.1 && l.1 ≠ key.2) &&
      !(Table.values g.appLinkNets).contains net && net ∉ g.nodes
  | .place id _ _ _ _ => !(Table.values g.appLinkNets).contains id
  | .dropNet key =>
    key.1 ≠ key.2 && match g.appLinkNets.lookup key with
      | some net => (key.1, net) ∈ g.netLinks && (key.2, net) ∈ g.netLinks
      | none => true
  | .remove .. => false
  | _ => true

theorem keepsNetsTest_sound (g : Graph) (e : Edit) (passed : keepsNetsTest g e = true) :
    Graph.KeepsNets g e := by
  cases e with
  | toggle r a b =>
    rintro rfl
    simp only [keepsNetsTest, ne_eq, not_true_eq_false, decide_false, Bool.false_or,
      Bool.or_eq_true, decide_eq_true_eq, Option.any_eq_true] at passed
    exact passed
  | mintNet key net =>
    simp only [keepsNetsTest, Bool.and_eq_true, List.all_eq_true, decide_eq_true_eq,
      Bool.not_eq_true', List.contains_eq_mem, decide_eq_false_iff_not] at passed
    obtain ⟨⟨links, values⟩, absent⟩ := passed
    refine ⟨⟨⟨fun l member => (links l member).1.1, fun key found => ?_⟩, absent⟩, fun l member => ?_⟩
    · exact values (Table.mem_values.2 ⟨key, found⟩)
    · exact ⟨(links l member).1.2, (links l member).2⟩
  | place id ws pos size payload =>
    intro key found
    simp only [keepsNetsTest, Bool.not_eq_true', List.contains_eq_mem,
      decide_eq_false_iff_not] at passed
    exact passed (Table.mem_values.2 ⟨key, found⟩)
  | dropNet key =>
    simp only [keepsNetsTest, Bool.and_eq_true, decide_eq_true_eq] at passed
    refine ⟨fun _ net found => ?_, fun self => absurd self passed.1⟩
    have joined := passed.2
    simp only [found, Bool.and_eq_true, decide_eq_true_eq] at joined
    exact joined
  | remove order id => cases passed
  | _ => trivial

theorem run_nets_undisturbed_band :
    ∃ s, run .plain loadingHost bandDocument
        [.tick socketHost, .command socketHost (.delete (.wire (.midi 10 11)))] = .ok s ∧
      s.graph.netLinks = [(12, 13)] ∧ s.history.Every Graph.Undisturbed := by
  have seen : (run .plain loadingHost bandDocument
      [.tick socketHost, .command socketHost (.delete (.wire (.midi 10 11)))]).toOption.map
        (fun s => (s.graph.netLinks, s.history.check keepsNetsTest)) = some ([(12, 13)], true) := by
    decide
  obtain ⟨s, ran, seen⟩ := ok_of_observed seen
  obtain ⟨links, passes⟩ := Prod.mk.inj seen
  have met := s.history.every_of_check keepsNetsTest_sound passes
  exact ⟨s, ran, links, (run_nets_undisturbed ran met).1⟩

/-- No command is given, and the app is off its network after one tick. -/
theorem tick_takes_app_off_network :
    ∃ s s', run .plain loadingHost crossedDocument [] = .ok s ∧
      run .plain loadingHost crossedDocument [.tick socketHost] = .ok s' ∧
      (10, 13) ∈ s.graph.netLinks ∧ s.graph.kindOf 13 = some .network ∧
      (10, 13) ∉ s'.graph.netLinks ∧ s'.graph.kindOf 13 = some .network := by
  have before : (run .plain loadingHost crossedDocument []).toOption.map
      (fun s => (decide ((10, 13) ∈ s.graph.netLinks), s.graph.kindOf 13)) =
        some (true, some .network) := by
    decide
  have after : (run .plain loadingHost crossedDocument [.tick socketHost]).toOption.map
      (fun s => (decide ((10, 13) ∉ s.graph.netLinks), s.graph.kindOf 13)) =
        some (true, some .network) := by
    decide
  obtain ⟨s, ran, seen⟩ := ok_of_observed before
  obtain ⟨s', ran', seen'⟩ := ok_of_observed after
  simp only [Prod.mk.injEq, decide_eq_true_eq] at seen seen'
  exact ⟨s, s', ran, ran', seen.1, seen.2, seen'.1, seen'.2⟩

end Poles

end Server

end Wk
