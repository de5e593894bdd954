/-
# Wk.Server.PrivateNets -- joining and leaving nets by toggles

A toggle leaves a net only if its member is on it, and otherwise joins it, so what
minting, dropping and pruning a private net do depends on who is on it.  This module
says what each does to the memberships when its members are where they should be:
nobody is on a net that is minted (`Joins`), both sides are on a net that is dropped
(`Leaves`), and the other side of every net is on it when one side is pruned
(`Parts`).
-/
import Wk.Server.Discipline

namespace Wk

open Wk.Library

set_option autoImplicit false

namespace Graph

/-! ## Link lists without repeats -/

/-- No link list holds a pair twice. -/
def NodupLinks (g : Graph) : Prop := ∀ r, (g.links r).Nodup

/-- **The rule of link lists.** What depends on the link lists alone, and is kept by
toggling one wire and by filtering one list, is kept by every edit. -/
theorem links_rule {P : (WireRel → List Pair) → Prop}
    (toggled : ∀ (g : Graph) r a b, P g.links → P (g.toggle r a b).links)
    (filtered : ∀ (g : Graph) r keep, P g.links → P (g.setLinks r ((g.links r).filter keep)).links)
    {g : Graph} (e : Edit) (here : P g.links) : P (e.apply g).links := by
  have pruned : ∀ (g : Graph) order id, P g.links → P (g.pruneAppLinkNet order id).links := by
    intro g order id here
    refine List.foldlRecOn (motive := fun g' : Graph => P g'.links) _ _ here ?_
    intro g' here key _
    unfold partNet
    split
    · exact here
    · exact toggled _ _ _ _ here
  have stripped : ∀ (g : Graph) order id, P g.links → P (g.dropWires order id).links := by
    intro g order id here
    unfold dropWires
    split
    · exact filtered _ _ _ here
    · exact filtered _ _ _ here
    · exact filtered _ _ _ here
    · exact filtered _ _ _ here
    · exact filtered _ _ _ here
    · exact filtered _ _ _ here
    · exact filtered _ _ _ here
    · exact filtered _ _ _ here
    · exact filtered _ _ _ here
    · exact filtered _ _ _ (filtered _ _ _ (pruned _ _ _
        (filtered _ _ _ (filtered _ _ _ (filtered _ _ _ here)))))
    · exact filtered _ _ _ here
    · exact filtered _ _ _ here
    · exact filtered _ _ _ here
    · exact pruned _ _ _ (filtered _ _ _ here)
    · exact pruned _ _ _ (filtered _ _ _ here)
    · exact filtered _ _ _ (filtered _ _ _ (filtered _ _ _ (pruned _ _ _
        (filtered _ _ _ (filtered _ _ _ here)))))
    all_goals exact here
  cases e with
  | toggle r a b => exact toggled _ _ _ _ here
  | mintNet key net => exact toggled _ _ _ _ (toggled _ _ _ _ here)
  | dropNet key =>
    simp only [Edit.apply, dropNet]
    split
    · exact here
    · exact toggled _ _ _ _ (toggled _ _ _ _ here)
  | place id ws pos size payload =>
    rw [Edit.apply, place_toWires]
    exact here
  | pose id pos3d panel3d => cases pos3d <;> cases panel3d <;> exact here
  | remove order id =>
    simp only [Edit.apply]
    by_cases present : id ∈ g.nodes
    · rw [remove_toWires g present]
      exact stripped g order id here
    · rw [remove_absent g present]
      exact here
  | update id u =>
    rw [Edit.apply, update_toWires]
    exact here
  | addTab index id =>
    rw [Edit.apply, addTab_toWires]
    exact here
  | removeTab id =>
    rw [Edit.apply, removeTab_toWires]
    exact here
  | _ => exact here

/-- Every edit keeps the link lists free of repeats. -/
theorem NodupLinks.edit {g : Graph} (nodup : g.NodupLinks) (e : Edit) : (e.apply g).NodupLinks := by
  refine links_rule (P := fun links => ∀ r, (links r).Nodup) ?_ ?_ e nodup
  · intro g r a b nodup r'
    rw [toggle_links]
    split
    · split
      · exact Wiring.toggleUnique_nodup (nodup r) a b
      · exact Wiring.togglePair_nodup (nodup r) a b
    · exact nodup r'
  · intro g r keep nodup r'
    rw [setLinks_links]
    split
    · exact (nodup r).filter _
    · exact nodup r'

/-! ## One toggle -/

theorem toggle_nodup {g : Graph} (nodup : g.NodupLinks) (r : WireRel) (a b : NodeId) :
    (g.toggle r a b).NodupLinks := nodup.edit (.toggle r a b)

/-- Toggling a wire that is there takes it and nothing else. -/
theorem mem_toggle_present {g : Graph} (nodup : g.NodupLinks) {r : WireRel} {a b : NodeId}
    (present : (a, b) ∈ g.links r) {l : Pair} :
    l ∈ (g.toggle r a b).links r ↔ l ∈ g.links r ∧ l ≠ (a, b) := by
  rw [toggle_links, if_pos rfl]
  split
  · rw [Wiring.mem_toggleUnique (nodup r)]
    simp [present]
  · rw [Wiring.mem_togglePair (nodup r)]
    simp [present]

/-- Toggling on a wire whose source has none adds it and takes nothing. -/
theorem mem_toggle_free {g : Graph} (nodup : g.NodupLinks) {r : WireRel} {a b : NodeId}
    (free : ∀ l ∈ g.links r, l.1 ≠ a) {l : Pair} :
    l ∈ (g.toggle r a b).links r ↔ l ∈ g.links r ∨ l = (a, b) := by
  have absent : (a, b) ∉ g.links r := fun member => free _ member rfl
  rw [toggle_links, if_pos rfl]
  split
  · rw [Wiring.mem_toggleUnique (nodup r)]
    constructor
    · rintro (⟨present, _⟩ | ⟨_, ⟨old, _⟩ | new⟩)
      · exact absurd present absent
      · exact .inl old
      · exact .inr new
    · rintro (old | new)
      · exact .inr ⟨absent, .inl ⟨old, free l old⟩⟩
      · exact .inr ⟨absent, .inr new⟩
  · rw [Wiring.togglePair_of_not_mem absent]
    simp

theorem toggle_other {g : Graph} {r r' : WireRel} (other : r' ≠ r) (a b : NodeId) :
    (g.toggle r a b).links r' = g.links r' := by
  rw [toggle_links, if_neg other]

/-- Toggling a wire twice adds nothing. -/
theorem mem_toggle_twice {g : Graph} (nodup : g.NodupLinks) {r : WireRel} {a b : NodeId} {l : Pair}
    (member : l ∈ ((g.toggle r a b).toggle r a b).links r) : l ∈ g.links r := by
  by_cases present : (a, b) ∈ g.links r
  · rcases mem_toggle member with once | ⟨_, rfl⟩
    · exact ((mem_toggle_present nodup present).1 once).1
    · exact present
  · have on : (a, b) ∈ (g.toggle r a b).links r := by
      rw [toggle_links, if_pos rfl]
      split
      · exact (Wiring.mem_toggleUnique (nodup r)).2 (.inr ⟨present, .inr rfl⟩)
      · exact (Wiring.mem_togglePair (nodup r)).2 (.inr ⟨rfl, present⟩)
    obtain ⟨once, other⟩ := (mem_toggle_present (toggle_nodup nodup r a b) on).1 member
    exact (mem_toggle once).resolve_right fun new => other new.2

/-! ## Minting and dropping -/

/-- Nobody's membership is in the way of a net minted for `key`. -/
def Joins (g : Graph) (key : Pair) : Prop := ∀ l ∈ g.netLinks, l.1 ≠ key.1 ∧ l.1 ≠ key.2

/-- Both sides of the net of `key` are on it. -/
def Joined (g : Graph) (key : Pair) (net : NodeId) : Prop :=
  (key.1, net) ∈ g.netLinks ∧ (key.2, net) ∈ g.netLinks

theorem mintNet_other {g : Graph} {key : Pair} {net : NodeId} {r : WireRel} (other : r ≠ .netLink) :
    (g.mintNet key net).links r = g.links r := by
  show ((g.toggle .netLink key.1 net).toggle .netLink key.2 net).links r = g.links r
  rw [toggle_other other, toggle_other other]

theorem dropNet_other {g : Graph} {key : Pair} {r : WireRel} (other : r ≠ .netLink) :
    (g.dropNet key).links r = g.links r := by
  unfold dropNet
  split
  · rfl
  · rw [toggle_other other, toggle_other other]

/-- Dropping a net erases its record and no other. -/
theorem dropNet_lookup (g : Graph) (key k : Pair) : (g.dropNet key).appLinkNets.lookup k =
    if k = key then none else g.appLinkNets.lookup k := by
  unfold dropNet
  split
  · next absent =>
      split
      · next same => rw [same, absent]
      · rfl
  · exact Table.lookup_erase_eq ..

/-- A minted net gains at most its two sides. -/
theorem mem_mintNet {g : Graph} {key : Pair} {net : NodeId} {l : Pair}
    (member : l ∈ (g.mintNet key net).netLinks) :
    l ∈ g.netLinks ∨ l = (key.1, net) ∨ l = (key.2, net) := by
  have member : l ∈ ((g.toggle .netLink key.1 net).toggle .netLink key.2 net).links .netLink := member
  rcases mem_toggle member with first | ⟨_, new⟩
  · exact (mem_toggle first).imp_right fun new => .inl new.2
  · exact .inr (.inr new)

/-- A net minted for two apps that are on none gains exactly them. -/
theorem mem_mintNet_joins {g : Graph} (nodup : g.NodupLinks) {key : Pair} {net : NodeId}
    (joins : g.Joins key) (apart : key.1 ≠ key.2) {l : Pair} :
    l ∈ (g.mintNet key net).netLinks ↔ l ∈ g.netLinks ∨ l = (key.1, net) ∨ l = (key.2, net) := by
  have first : ∀ {l}, l ∈ (g.toggle .netLink key.1 net).netLinks ↔
      l ∈ g.netLinks ∨ l = (key.1, net) :=
    mem_toggle_free nodup fun l member => (joins l member).1
  have free : ∀ l ∈ (g.toggle .netLink key.1 net).netLinks, l.1 ≠ key.2 := by
    intro l member
    rcases first.1 member with old | rfl
    · exact (joins l old).2
    · exact apart
  show l ∈ ((g.toggle .netLink key.1 net).toggle .netLink key.2 net).links .netLink ↔ _
  rw [mem_toggle_free (toggle_nodup nodup .netLink key.1 net) free, first, or_assoc]

/-- A net whose two sides are on it loses exactly them. -/
theorem mem_dropNet_joined {g : Graph} (nodup : g.NodupLinks) {key : Pair} {net : NodeId}
    (found : g.appLinkNets.lookup key = some net) (joined : g.Joined key net)
    (apart : key.1 ≠ key.2) {l : Pair} :
    l ∈ (g.dropNet key).netLinks ↔ l ∈ g.netLinks ∧ l ≠ (key.1, net) ∧ l ≠ (key.2, net) := by
  simp only [dropNet, found]
  have first : ∀ {l}, l ∈ (toggle { g with appLinkNets := g.appLinkNets.erase key } .netLink
      key.1 net).netLinks ↔ l ∈ g.netLinks ∧ l ≠ (key.1, net) :=
    mem_toggle_present (g := { g with appLinkNets := g.appLinkNets.erase key }) nodup joined.1
  have second : (key.2, net) ∈ (toggle { g with appLinkNets := g.appLinkNets.erase key } .netLink
      key.1 net).netLinks :=
    first.2 ⟨joined.2, fun same => apart (Prod.mk.inj same).1.symm⟩
  have kept : NodupLinks (toggle { g with appLinkNets := g.appLinkNets.erase key } .netLink
      key.1 net) := toggle_nodup (g := { g with appLinkNets := g.appLinkNets.erase key }) nodup _ _ _
  rw [mem_toggle_present kept second, first, and_assoc]

/-- A net of one app with itself: dropping it adds no membership. -/
theorem mem_dropNet_self {g : Graph} (nodup : g.NodupLinks) {key : Pair} (same : key.1 = key.2)
    {l : Pair} (member : l ∈ (g.dropNet key).netLinks) : l ∈ g.netLinks := by
  unfold dropNet at member
  split at member
  · exact member
  · rw [← same] at member
    exact mem_toggle_twice (g := { g with appLinkNets := g.appLinkNets.erase key }) nodup member

/-! ## Pruning -/

/-- The side of `key` that is not `id`. -/
def otherSide (id : NodeId) (key : Pair) : NodeId := if key.1 = id then key.2 else key.1

/-- The other side of every private net of `id` is on it. -/
def Parts (g : Graph) (id : NodeId) : Prop :=
  ∀ key net, g.appLinkNets.lookup key = some net → key.1 = id ∨ key.2 = id →
    key.1 ≠ key.2 ∧ (otherSide id key, net) ∈ g.netLinks

/-- No two private nets are one. -/
def NetsApart (g : Graph) : Prop :=
  ∀ key key' net, g.appLinkNets.lookup key = some net → g.appLinkNets.lookup key' = some net →
    key = key'

theorem partNet_other {g : Graph} {id : NodeId} {key : Pair} {r : WireRel} (other : r ≠ .netLink) :
    (g.partNet id key).links r = g.links r := by
  unfold partNet
  split
  · rfl
  · rw [toggle_other other]

theorem partNet_lookup (g : Graph) (id : NodeId) (key k : Pair) :
    (g.partNet id key).appLinkNets.lookup k =
      if k = key then none else g.appLinkNets.lookup k := by
  unfold partNet
  split
  · next absent =>
      split
      · next same => rw [same, absent]
      · rfl
  · exact Table.lookup_erase_eq ..

theorem mem_partNet {g : Graph} (nodup : g.NodupLinks) {id : NodeId} {key : Pair} {net : NodeId}
    (found : g.appLinkNets.lookup key = some net) (joined : (otherSide id key, net) ∈ g.netLinks)
    {l : Pair} :
    l ∈ (g.partNet id key).netLinks ↔ l ∈ g.netLinks ∧ l ≠ (otherSide id key, net) := by
  simp only [partNet, found]
  exact mem_toggle_present (g := { g with appLinkNets := g.appLinkNets.erase key }) nodup joined

theorem partNet_nodup {g : Graph} (nodup : g.NodupLinks) (id : NodeId) (key : Pair) :
    (g.partNet id key).NodupLinks := by
  unfold partNet
  split
  · exact nodup
  · exact toggle_nodup (g := { g with appLinkNets := g.appLinkNets.erase key }) nodup _ _ _

/-- Parting a list of nets, each with its other side on it, takes exactly those
memberships and those records. -/
theorem partNets_spec {id : NodeId} (keys : List Pair) : ∀ {g : Graph}, g.NodupLinks → g.NetsApart →
    keys.Nodup → (∀ key ∈ keys, ∃ net, g.appLinkNets.lookup key = some net ∧
      (otherSide id key, net) ∈ g.netLinks) →
    let g' := keys.foldl (fun g key => g.partNet id key) g
    (∀ l, l ∈ g'.netLinks ↔ l ∈ g.netLinks ∧
      ∀ key ∈ keys, ∀ net, g.appLinkNets.lookup key = some net → l ≠ (otherSide id key, net)) ∧
    (∀ key, g'.appLinkNets.lookup key = if key ∈ keys then none else g.appLinkNets.lookup key) ∧
    (∀ r, r ≠ .netLink → g'.links r = g.links r) := by
  induction keys with
  | nil => intro g _ _ _ _; simp
  | cons key keys ih =>
    intro g nodup apart distinct joined
    obtain ⟨new, distinct⟩ := List.nodup_cons.1 distinct
    obtain ⟨net, found, member⟩ := joined key (List.mem_cons_self ..)
    have nets : ∀ k, (g.partNet id key).appLinkNets.lookup k =
        if k = key then none else g.appLinkNets.lookup k := partNet_lookup g id key
    have kept : ∀ k, k ≠ key → (g.partNet id key).appLinkNets.lookup k = g.appLinkNets.lookup k :=
      fun k other => by rw [nets, if_neg other]
    have apart' : (g.partNet id key).NetsApart := by
      intro k k' n here there
      rw [nets] at here there
      split at here
      · cases here
      · split at there
        · cases there
        · exact apart k k' n here there
    -- The nets still to part are others, so this one's members are not theirs.
    have joined' : ∀ k ∈ keys, ∃ n, (g.partNet id key).appLinkNets.lookup k = some n ∧
        (otherSide id k, n) ∈ (g.partNet id key).netLinks := by
      intro k later
      have other : k ≠ key := fun same => new (same ▸ later)
      obtain ⟨n, foundK, memberK⟩ := joined k (List.mem_cons_of_mem _ later)
      refine ⟨n, by rw [kept k other, foundK], (mem_partNet nodup found member).2 ⟨memberK, ?_⟩⟩
      intro same
      have sameNet : n = net := (Prod.mk.inj same).2
      exact other (apart k key net (sameNet ▸ foundK) found)
    obtain ⟨links, records, others⟩ := ih (partNet_nodup nodup id key) apart' distinct joined'
    refine ⟨?_, ?_, ?_⟩
    · intro l
      rw [List.foldl_cons, links, mem_partNet nodup found member]
      constructor
      · rintro ⟨⟨old, notThis⟩, rest⟩
        refine ⟨old, ?_⟩
        intro k memberK n foundK
        rcases List.mem_cons.1 memberK with rfl | later
        · rw [found] at foundK
          cases foundK
          exact notThis
        · have other : k ≠ key := fun same => new (same ▸ later)
          exact rest k later n (by rw [kept k other, foundK])
      · rintro ⟨old, all⟩
        refine ⟨⟨old, all key (List.mem_cons_self ..) net found⟩, ?_⟩
        intro k later n foundK
        have other : k ≠ key := fun same => new (same ▸ later)
        rw [kept k other] at foundK
        exact all k (List.mem_cons_of_mem _ later) n foundK
    · intro k
      rw [List.foldl_cons, records, nets]
      by_cases same : k = key
      · simp [same]
      · simp [same]
    · intro r other
      rw [List.foldl_cons, others r other, partNet_other other]

theorem mem_privateKeys {g : Graph} {id : NodeId} {key : Pair} :
    key ∈ g.privateKeys id ↔ key ∈ g.appLinkNets ∧ (key.1 = id ∨ key.2 = id) := by
  simp [privateKeys, AList.mem_keys]

/-- What pruning does when the other side of every net is on it. -/
structure Pruned (g g' : Graph) (id : NodeId) : Prop where
  links : ∀ l, l ∈ g'.netLinks ↔ l ∈ g.netLinks ∧ ∀ key net, g.appLinkNets.lookup key = some net →
    key.1 = id ∨ key.2 = id → l ≠ (otherSide id key, net)
  nets : ∀ key, g'.appLinkNets.lookup key =
    if key.1 = id ∨ key.2 = id then none else g.appLinkNets.lookup key
  others : ∀ r, r ≠ .netLink → g'.links r = g.links r

theorem pruneAppLinkNet_spec {g : Graph} (nodup : g.NodupLinks) (apart : g.NetsApart) {id : NodeId}
    (parts : g.Parts id) {order : List Pair → List Pair} (perm : ∀ keys, (order keys).Perm keys) :
    Pruned g (g.pruneAppLinkNet order id) id := by
  have mine : ∀ key, key ∈ order (g.privateKeys id) ↔
      key ∈ g.appLinkNets ∧ (key.1 = id ∨ key.2 = id) :=
    fun key => (perm _).mem_iff.trans mem_privateKeys
  have distinct : (order (g.privateKeys id)).Nodup :=
    (perm _).nodup_iff.2 (g.appLinkNets.nodupKeys.filter _)
  have joined : ∀ key ∈ order (g.privateKeys id), ∃ net, g.appLinkNets.lookup key = some net ∧
      (otherSide id key, net) ∈ g.netLinks := by
    intro key member
    obtain ⟨recorded, side⟩ := (mine key).1 member
    obtain ⟨net, found⟩ := Table.mem_iff_lookup.1 recorded
    exact ⟨net, found, (parts key net found side).2⟩
  obtain ⟨links, nets, others⟩ := partNets_spec _ nodup apart distinct joined
  refine ⟨fun l => ?_, fun key => ?_, others⟩
  · rw [pruneAppLinkNet, links]
    refine and_congr_right fun _ => ⟨fun all key net found side => ?_, fun all key member net found => ?_⟩
    · exact all key ((mine key).2 ⟨Table.mem_of_lookup found, side⟩) net found
    · exact all key net found ((mine key).1 member).2
  · rw [pruneAppLinkNet, nets]
    by_cases side : key.1 = id ∨ key.2 = id
    · rw [if_pos side]
      split
      · rfl
      · next absent =>
          have unrecorded : key ∉ g.appLinkNets := fun recorded => absent ((mine key).2 ⟨recorded, side⟩)
          exact AList.lookup_eq_none.2 unrecorded
    · rw [if_neg side, if_neg fun member => side ((mine key).1 member).2]

end Graph

/-! ## Removing -/

namespace Kind

/-- Whether removing a node of this kind strips the wires of `r` that start at it. -/
def stripsFrom : Kind → WireRel → Bool
  | file, .connection => true
  | app, .netLink | app, .midi | app, .serve | app, .clipboardLink => true
  | iroh, .netLink | veilid, .netLink | multicast, .netLink | hostService, .netLink
  | router, .netLink => true
  | midiIn, .midi | midiOut, .midi => true
  | boundary, .connection | boundary, .midi | boundary, .captureLink | boundary, .clipboardLink
  | boundary, .apiLink => true
  | _, _ => false

/-- Whether removing a node of this kind strips the wires of `r` that end at it. -/
def stripsTo : Kind → WireRel → Bool
  | port, .serve => true
  | network, .netLink | gateway, .netLink => true
  | app, .connection | app, .midi | app, .serve => true
  | capture, .captureLink => true
  | clipboard, .clipboardLink => true
  | api, .apiLink => true
  | midiIn, .midi | midiOut, .midi => true
  | boundary, .connection | boundary, .midi | boundary, .captureLink | boundary, .clipboardLink
  | boundary, .apiLink => true
  | _, _ => false

/-- Whether removing a node of this kind parts its private nets. -/
def partsNets : Kind → Bool
  | app | midiIn | midiOut | boundary => true
  | _ => false

end Kind

namespace Graph

theorem mem_dropFrom {g : Graph} {r r' : WireRel} {id : NodeId} {l : Pair} :
    l ∈ (g.dropFrom r id).links r' ↔ l ∈ g.links r' ∧ (r' = r → l.1 ≠ id) := by
  rw [dropFrom, setLinks_links]
  split
  · next same => subst same; simp [List.mem_filter]
  · next other => simp [other]

theorem mem_dropTo {g : Graph} {r r' : WireRel} {id : NodeId} {l : Pair} :
    l ∈ (g.dropTo r id).links r' ↔ l ∈ g.links r' ∧ (r' = r → l.2 ≠ id) := by
  rw [dropTo, setLinks_links]
  split
  · next same => subst same; simp [List.mem_filter]
  · next other => simp [other]

theorem mem_dropOn {g : Graph} {r r' : WireRel} {id : NodeId} {l : Pair} :
    l ∈ (g.dropOn r id).links r' ↔ l ∈ g.links r' ∧ (r' = r → l.1 ≠ id ∧ l.2 ≠ id) := by
  rw [dropOn, setLinks_links]
  split
  · next same => subst same; simp [List.mem_filter]
  · next other => simp [other]

theorem filter_nodup {g : Graph} (nodup : g.NodupLinks) (r : WireRel) (keep : Pair → Bool) :
    (g.setLinks r ((g.links r).filter keep)).NodupLinks := by
  intro r'
  rw [setLinks_links]
  split
  · exact (nodup r).filter _
  · exact nodup r'

/-- What stripping a node of kind `kind` does to the wires and to the private nets. -/
structure Stripped (g g' : Graph) (id : NodeId) (kind : Kind) : Prop where
  links : ∀ r l, l ∈ g'.links r ↔ l ∈ g.links r ∧ (kind.stripsFrom r = true → l.1 ≠ id) ∧
    (kind.stripsTo r = true → l.2 ≠ id) ∧ (r = .netLink → kind.partsNets = true →
      ∀ key net, g.appLinkNets.lookup key = some net → key.1 = id ∨ key.2 = id →
        l ≠ (otherSide id key, net))
  nets : ∀ key, g'.appLinkNets.lookup key =
    if kind.partsNets = true ∧ (key.1 = id ∨ key.2 = id) then none else g.appLinkNets.lookup key

/-- The side that is not `id`, of a pair of two. -/
theorem otherSide_ne {id : NodeId} {key : Pair} (apart : key.1 ≠ key.2) : otherSide id key ≠ id := by
  unfold otherSide
  split
  · next same => exact fun other => apart (same.trans other.symm)
  · next other => exact other

/-- Dropping the wires that start at `id` leaves the other sides of its nets on
them. -/
theorem Parts.dropFrom {g : Graph} {id : NodeId} (parts : g.Parts id) (r : WireRel) :
    (g.dropFrom r id).Parts id := by
  intro key net found side
  obtain ⟨apart, member⟩ := parts key net found side
  exact ⟨apart, mem_dropFrom.2 ⟨member, fun _ => otherSide_ne apart⟩⟩

/-- Dropping wires of another relation, too. -/
theorem Parts.congr {g g' : Graph} {id : NodeId} (parts : g.Parts id)
    (nets : g'.appLinkNets = g.appLinkNets) (links : g'.netLinks = g.netLinks) : g'.Parts id := by
  intro key net found side
  rw [nets] at found
  rw [links]
  exact parts key net found side

/-- A removal that parts no private net. -/
theorem stripped_plain {g g' : Graph} {id : NodeId} {kind : Kind} (plain : kind.partsNets = false)
    (nets : g'.appLinkNets = g.appLinkNets)
    (links : ∀ r l, l ∈ g'.links r ↔ l ∈ g.links r ∧ (kind.stripsFrom r = true → l.1 ≠ id) ∧
      (kind.stripsTo r = true → l.2 ≠ id)) : Stripped g g' id kind where
  links := fun r l => by simp [links, plain]
  nets := fun key => by simp [plain, nets]

/-- A removal that parts private nets: the wires are filtered, the nets are parted,
and wires of other relations are filtered again. -/
theorem stripped_parting {g g₁ g₂ g' : Graph} {id : NodeId} {kind : Kind}
    (parting : kind.partsNets = true) (pruned : Pruned g₁ g₂ id)
    (nets₁ : g₁.appLinkNets = g.appLinkNets) (nets' : g'.appLinkNets = g₂.appLinkNets)
    (member : ∀ l, l ∈ g₁.netLinks ↔ l ∈ g.netLinks ∧ (kind.stripsFrom .netLink = true → l.1 ≠ id) ∧
      (kind.stripsTo .netLink = true → l.2 ≠ id))
    (after : g'.netLinks = g₂.netLinks)
    (others : ∀ r, r ≠ .netLink → (g₂.links r = g₁.links r) → ∀ l, l ∈ g'.links r ↔ l ∈ g.links r ∧
      (kind.stripsFrom r = true → l.1 ≠ id) ∧ (kind.stripsTo r = true → l.2 ≠ id)) :
    Stripped g g' id kind where
  links := by
    intro r l
    by_cases net : r = .netLink
    · subst net
      show l ∈ g'.netLinks ↔ _
      rw [after, pruned.links, member, nets₁]
      simp [parting, and_assoc]
    · rw [others r net (pruned.others r net)]
      simp [net]
  nets := by
    intro key
    rw [nets', pruned.nets, nets₁]
    simp [parting]

theorem dropWires_stripped {g : Graph} (nodup : g.NodupLinks) (apart : g.NetsApart)
    {order : List Pair → List Pair} (perm : ∀ keys, (order keys).Perm keys) {id : NodeId} {kind : Kind}
    (kindIs : g.kindOf id = some kind) (parts : kind.partsNets = true → g.Parts id) :
    Stripped g (g.dropWires order id) id kind := by
  unfold dropWires
  rw [kindIs]
  cases kind with
  | app =>
    let g₁ := ((g.dropTo .connection id).dropFrom .netLink id).dropOn .midi id
    have nodup₁ : g₁.NodupLinks := filter_nodup (filter_nodup (filter_nodup nodup _ _) _ _) _ _
    have unmounted : (g.dropTo .connection id).Parts id := (parts rfl).congr rfl rfl
    have parts₁ : g₁.Parts id := (unmounted.dropFrom .netLink).congr rfl rfl
    refine stripped_parting rfl (pruneAppLinkNet_spec nodup₁ apart parts₁ perm) rfl rfl ?_ rfl ?_
    · intro l
      simp only [g₁, netLinks, mem_dropOn, mem_dropFrom, mem_dropTo]
      simp [Kind.stripsFrom, Kind.stripsTo]
    · intro r net same l
      show l ∈ (((g₁.pruneAppLinkNet order id).dropOn .serve id).dropFrom .clipboardLink id).links r ↔ _
      rw [mem_dropFrom, mem_dropOn, same]
      simp only [g₁, mem_dropOn, mem_dropFrom, mem_dropTo]
      cases r <;> simp [Kind.stripsFrom, Kind.stripsTo] at net ⊢
  | midiIn | midiOut =>
    have nodup₁ : (g.dropOn .midi id).NodupLinks := filter_nodup nodup _ _
    have parts₁ : (g.dropOn .midi id).Parts id := (parts rfl).congr rfl rfl
    refine stripped_parting rfl (pruneAppLinkNet_spec nodup₁ apart parts₁ perm) rfl rfl ?_ rfl ?_
    · intro l
      simp only [netLinks, mem_dropOn]
      simp [Kind.stripsFrom, Kind.stripsTo]
    · intro r net same l
      rw [same, mem_dropOn]
      cases r <;> simp [Kind.stripsFrom, Kind.stripsTo] at net ⊢
  | boundary =>
    let g₁ := (g.dropOn .connection id).dropOn .midi id
    have nodup₁ : g₁.NodupLinks := filter_nodup (filter_nodup nodup _ _) _ _
    have parts₁ : g₁.Parts id := (parts rfl).congr rfl rfl
    refine stripped_parting rfl (pruneAppLinkNet_spec nodup₁ apart parts₁ perm) rfl rfl ?_ rfl ?_
    · intro l
      simp only [g₁, netLinks, mem_dropOn]
      simp [Kind.stripsFrom, Kind.stripsTo]
    · intro r net same l
      show l ∈ ((((g₁.pruneAppLinkNet order id).dropOn .captureLink id).dropOn .clipboardLink
        id).dropOn .apiLink id).links r ↔ _
      rw [mem_dropOn, mem_dropOn, mem_dropOn, same]
      simp only [g₁, mem_dropOn]
      cases r <;> simp [Kind.stripsFrom, Kind.stripsTo] at net ⊢
  | file =>
    refine stripped_plain rfl rfl fun r l => ?_
    show l ∈ (g.dropFrom .connection id).links r ↔ _
    rw [mem_dropFrom]
    cases r <;> simp [Kind.stripsFrom, Kind.stripsTo]
  | port =>
    refine stripped_plain rfl rfl fun r l => ?_
    show l ∈ (g.dropTo .serve id).links r ↔ _
    rw [mem_dropTo]
    cases r <;> simp [Kind.stripsFrom, Kind.stripsTo]
  | group | note => exact stripped_plain rfl rfl fun r l => by cases r <;> simp [Kind.stripsFrom, Kind.stripsTo]
  | network | gateway | capture | clipboard | api =>
    refine stripped_plain rfl rfl fun r l => ?_
    rw [mem_dropTo]
    cases r <;> simp [Kind.stripsFrom, Kind.stripsTo]
  | iroh | veilid | multicast | hostService | router =>
    refine stripped_plain rfl rfl fun r l => ?_
    rw [mem_dropFrom]
    cases r <;> simp [Kind.stripsFrom, Kind.stripsTo]

/-! ## Every net is placed or on record -/

/-- Every membership leads to a node or to a private net on record, and only its own
two sides are on a private net. -/
structure Netted (g : Graph) : Prop where
  nodup : g.NodupLinks
  apart : g.NetsApart
  known : ∀ l ∈ g.netLinks, l.2 ∈ g.nodes ∨ ∃ key, g.appLinkNets.lookup key = some l.2
  sides : ∀ l ∈ g.netLinks, l.2 ∉ g.nodes → ∀ key, g.appLinkNets.lookup key = some l.2 →
    key.1 ≠ key.2 ∧ (l.1 = key.1 ∨ l.1 = key.2)

/-- An id no net has yet. -/
def UnusedNet (g : Graph) (net : NodeId) : Prop :=
  (∀ l ∈ g.netLinks, l.2 ≠ net) ∧ ∀ key, g.appLinkNets.lookup key ≠ some net

/-- Both sides of a private net of two apps are on it. -/
def BothJoined (g : Graph) (key : Pair) : Prop :=
  key.1 ≠ key.2 → ∀ net, g.appLinkNets.lookup key = some net → g.Joined key net

/-- The memberships of a node that is removed by its kind, and the private nets it is
a side of, are where the removal expects them. -/
structure ClearsNets (g : Graph) (id : NodeId) (kind : Kind) : Prop where
  into : ∀ l ∈ g.netLinks, l.2 = id → kind.stripsTo .netLink = true
  out : kind.partsNets = true → ∀ l ∈ g.netLinks, l.1 = id → kind.stripsFrom .netLink = true
  parts : kind.partsNets = true → g.Parts id

/-- The same memberships and records among at least the same nodes. -/
theorem Netted.congr {g g' : Graph} (good : g.Netted) (links : g'.links = g.links)
    (nets : g'.appLinkNets = g.appLinkNets) (nodes : ∀ n ∈ g.nodes, n ∈ g'.nodes) : g'.Netted := by
  refine ⟨?_, ?_, ?_, ?_⟩
  · exact fun r => by rw [links]; exact good.nodup r
  · intro key key' net here there
    rw [nets] at here there
    exact good.apart key key' net here there
  · intro l member
    rw [netLinks, links] at member
    rw [nets]
    exact (good.known l member).imp_left (nodes _)
  · intro l member absent key found
    rw [netLinks, links] at member
    rw [nets] at found
    exact good.sides l member (fun present => absent (nodes _ present)) key found

theorem Netted.toggle {g : Graph} (good : g.Netted) {r : WireRel} {a b : NodeId}
    (live : r = .netLink → (a, b) ∈ g.netLinks ∨ b ∈ g.nodes) : (g.toggle r a b).Netted := by
  have old : ∀ l ∈ (g.toggle r a b).netLinks, l ∈ g.netLinks ∨ l.2 ∈ g.nodes := by
    intro l member
    rcases mem_toggle member with old | ⟨rfl, rfl⟩
    · exact .inl old
    · exact live rfl
  refine ⟨toggle_nodup good.nodup r a b, good.apart, ?_, ?_⟩
  · exact fun l member => (old l member).elim (good.known l) .inl
  · intro l member absent
    exact (old l member).elim (fun old => good.sides l old absent) fun here => absurd here absent

theorem Netted.mintNet {g : Graph} (good : g.Netted) {key : Pair} {net : NodeId}
    (new : key ∉ g.appLinkNets) (unused : g.UnusedNet net) : (g.mintNet key net).Netted := by
  have record : ∀ k, (g.mintNet key net).appLinkNets.lookup k =
      if k = key then some net else g.appLinkNets.lookup k := fun k => Table.lookup_insert_eq ..
  have old : ∀ {k n}, g.appLinkNets.lookup k = some n →
      (g.mintNet key net).appLinkNets.lookup k = some n := by
    intro k n found
    rw [record, if_neg, found]
    rintro rfl
    exact new (Table.mem_of_lookup found)
  refine ⟨good.nodup.edit (.mintNet key net), ?_, ?_, ?_⟩
  · intro k k' n here there
    rw [record] at here there
    split at here <;> split at there
    · next first second => rw [first, second]
    · cases here
      exact absurd there (unused.2 k')
    · cases there
      exact absurd here (unused.2 k)
    · exact good.apart k k' n here there
  · intro l member
    rcases mem_mintNet member with before | side
    · exact (good.known l before).imp_right fun ⟨k, found⟩ => ⟨k, old found⟩
    · refine .inr ⟨key, ?_⟩
      rw [record, if_pos rfl]
      rcases side with rfl | rfl <;> rfl
  · intro l member absent k found
    rw [record] at found
    rcases mem_mintNet member with before | side
    · split at found
      · cases found
        exact absurd rfl (unused.1 l before)
      · exact good.sides l before absent k found
    · have onNet : l.2 = net := by rcases side with rfl | rfl <;> rfl
      split at found
      · next same =>
          subst same
          refine ⟨?_, by rcases side with rfl | rfl <;> simp⟩
          -- A net of one app with itself is toggled on and off again.
          intro self
          have twice : l ∈ ((g.toggle .netLink k.1 net).toggle .netLink k.2 net).links .netLink := member
          rw [← self] at twice
          exact unused.1 l (mem_toggle_twice good.nodup twice) onNet
      · exact absurd (onNet ▸ found) (unused.2 k)

/-- Whoever is left after a net is dropped was there before, and is on it only if it
is a placed node. -/
theorem Netted.mem_dropNet {g : Graph} (good : g.Netted) {key : Pair} {net : NodeId}
    (recorded : g.appLinkNets.lookup key = some net) (joined : g.BothJoined key) {l : Pair}
    (member : l ∈ (g.dropNet key).netLinks) : l ∈ g.netLinks ∧ (l.2 = net → net ∈ g.nodes) := by
  by_cases self : key.1 = key.2
  · have old := mem_dropNet_self good.nodup self member
    refine ⟨old, fun onNet => ?_⟩
    by_contra absent
    exact (good.sides l old (onNet ▸ absent) key (onNet ▸ recorded)).1 self
  · obtain ⟨old, notFirst, notSecond⟩ :=
      (mem_dropNet_joined good.nodup recorded (joined self net recorded) self).1 member
    refine ⟨old, fun onNet => ?_⟩
    by_contra absent
    rcases (good.sides l old (onNet ▸ absent) key (onNet ▸ recorded)).2 with side | side
    · exact notFirst (Prod.ext side onNet)
    · exact notSecond (Prod.ext side onNet)

theorem dropNet_unrecorded {g : Graph} {key : Pair} (absent : g.appLinkNets.lookup key = none) :
    g.dropNet key = g := by
  simp only [dropNet, absent]

theorem Netted.dropNet {g : Graph} (good : g.Netted) {key : Pair} (joined : g.BothJoined key) :
    (g.dropNet key).Netted := by
  cases recorded : g.appLinkNets.lookup key with
  | none =>
    rw [dropNet_unrecorded recorded]
    exact good
  | some net =>
    have nodes : (g.dropNet key).nodes = g.nodes := by rw [dropNet_toCanvas]
    have kept : ∀ {k n}, (g.dropNet key).appLinkNets.lookup k = some n →
        g.appLinkNets.lookup k = some n := by
      intro k n found
      rw [dropNet_lookup] at found
      split at found
      · cases found
      · exact found
    refine ⟨good.nodup.edit (.dropNet key), ?_, ?_, ?_⟩
    · intro k k' n here there
      exact good.apart k k' n (kept here) (kept there)
    · intro l member
      obtain ⟨old, onNet⟩ := good.mem_dropNet recorded joined member
      rw [nodes]
      rcases good.known l old with here | ⟨k, found⟩
      · exact .inl here
      · by_cases same : k = key
        · subst same
          have isNet : l.2 = net := (Option.some.inj (recorded.symm.trans found)).symm
          exact .inl (isNet ▸ onNet isNet)
        · exact .inr ⟨k, by rw [dropNet_lookup, if_neg same, found]⟩
    · intro l member absent k found
      rw [nodes] at absent
      exact good.sides l (good.mem_dropNet recorded joined member).1 absent k (kept found)

theorem Netted.remove {g : Graph} (good : g.Netted) {order : List Pair → List Pair} {id : NodeId}
    (perm : ∀ keys, (order keys).Perm keys)
    (clears : ∀ kind, g.kindOf id = some kind → g.ClearsNets id kind) :
    (g.remove order id).Netted := by
  by_cases present : id ∈ g.nodes
  · obtain ⟨kind, kindIs⟩ := Canvas.exists_kindOf present
    obtain ⟨into, out, parts⟩ := clears kind kindIs
    have stripped := dropWires_stripped good.nodup good.apart perm kindIs parts
    have wires : (g.remove order id).toWires = (g.dropWires order id).toWires :=
      remove_toWires g present
    have links : (g.remove order id).links = (g.dropWires order id).links := by rw [wires]
    have nets : (g.remove order id).appLinkNets = (g.dropWires order id).appLinkNets := by rw [wires]
    have left : ∀ l ∈ (g.remove order id).netLinks, l ∈ g.netLinks ∧ l.2 ≠ id := by
      intro l member
      rw [netLinks, links] at member
      obtain ⟨old, _, targetGone, _⟩ := (stripped.links .netLink l).1 member
      exact ⟨old, fun same => targetGone (into l old same) same⟩
    have kept : ∀ {key net}, (g.remove order id).appLinkNets.lookup key = some net →
        g.appLinkNets.lookup key = some net := by
      intro key net found
      rw [nets, stripped.nets] at found
      split at found
      · cases found
      · exact found
    refine ⟨good.nodup.edit (.remove order id), ?_, ?_, ?_⟩
    · intro key key' net here there
      exact good.apart key key' net (kept here) (kept there)
    · intro l member
      obtain ⟨old, notTarget⟩ := left l member
      by_cases placed : l.2 ∈ g.nodes
      · exact .inl (mem_remove_nodes g placed notTarget)
      · obtain ⟨key, found⟩ := (good.known l old).resolve_left placed
        refine .inr ⟨key, ?_⟩
        rw [nets, stripped.nets, if_neg, found]
        -- Were this net parted, both its sides would have left it.
        rintro ⟨parting, side⟩
        rw [netLinks, links] at member
        obtain ⟨_, sourceGone, _, parted⟩ := (stripped.links .netLink l).1 member
        have notSource : l.1 ≠ id := fun same => sourceGone (out parting l old same) same
        refine parted rfl parting key l.2 found side (Prod.ext ?_ rfl)
        obtain ⟨_, mine⟩ := good.sides l old placed key found
        unfold otherSide
        rcases mine with mine | mine <;> split <;> simp_all
    · intro l member absent key found
      obtain ⟨old, notTarget⟩ := left l member
      refine good.sides l old (fun placed => ?_) key (kept found)
      exact absent (mem_remove_nodes g placed notTarget)
  · rw [remove_absent g present]
    exact good

/-- What an edit has to meet for every net to stay placed or on record. -/
def KeepsKnown (g : Graph) : Edit → Prop
  | .toggle r a b => r = .netLink → (a, b) ∈ g.netLinks ∨ b ∈ g.nodes
  | .mintNet key net => key ∉ g.appLinkNets ∧ g.UnusedNet net
  | .dropNet key => g.BothJoined key
  | .remove order id => (∀ keys, (order keys).Perm keys) ∧
      ∀ kind, g.kindOf id = some kind → g.ClearsNets id kind
  | _ => True

theorem Netted.edit {g : Graph} {e : Edit} (keeps : KeepsKnown g e) (good : g.Netted) :
    (e.apply g).Netted := by
  cases e with
  | toggle r a b => exact good.toggle keeps
  | mintNet key net => exact good.mintNet keeps.1 keeps.2
  | dropNet key => exact good.dropNet keeps
  | remove order id => exact good.remove keeps.1 keeps.2
  | place id ws pos size payload =>
    have wires : (g.place id ws pos size payload).toWires = g.toWires := place_toWires ..
    refine good.congr (by rw [Edit.apply, wires]) (by rw [Edit.apply, wires]) fun n present => ?_
    rw [Edit.apply, place_nodes]
    exact (AList.mem_insert _).2 (.inr present)
  | pose id pos3d panel3d =>
    cases pos3d <;> cases panel3d <;> exact good.congr rfl rfl fun _ present => present
  | update id u =>
    have wires : (g.update id u).toWires = g.toWires := update_toWires ..
    exact good.congr (by rw [Edit.apply, wires]) (by rw [Edit.apply, wires])
      fun n present => (mem_update_nodes g id n u).2 present
  | addTab index id =>
    have wires : (g.addTab index id).toWires = g.toWires := addTab_toWires ..
    refine good.congr (by rw [Edit.apply, wires]) (by rw [Edit.apply, wires]) fun n present => ?_
    simp only [Edit.apply, addTab]
    split <;> exact present
  | removeTab id =>
    have wires : (g.removeTab id).toWires = g.toWires := removeTab_toWires ..
    refine good.congr (by rw [Edit.apply, wires]) (by rw [Edit.apply, wires]) fun n present => ?_
    simp only [Edit.apply, removeTab]
    split <;> exact present
  | _ => exact good.congr rfl rfl fun _ present => present

theorem netted_ofDocument (doc : Document) : (ofDocument doc).Netted :=
  ⟨fun _ => List.nodup_nil, nofun, nofun, nofun⟩

end Graph

end Wk
