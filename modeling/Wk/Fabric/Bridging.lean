/-
# Wk.Fabric.Bridging -- names and deliveries when a router is added

`NetHub.resolve` looks for a name on the network that asks and then on the networks
routed to it, in the order of the walk.  So a name means a node on the `Nearest` network
that has one of that name, by the best route over the routers; and a router that is
added can bring another network nearer.

* `named_eq_some_iff`: the node a name means.
* `bridged`: a name that resolves keeps its node exactly when no network with a
  namesake has come nearer.  Frames keep theirs wherever addresses are unique.

Pole: `namesake_nearer` (a namesake three hops away is brought next door).
-/
import Wk.Fabric.Switch
import Wk.Library.Routes

namespace Wk.Fabric

open Wk.Library

set_option autoImplicit false

/-! ## Fabric DNS -/

namespace NetHub

variable {σ τ : Type}

/-- Fabric DNS: the first node called `name` on `net`, else the first on a network a
router bridges it to. -/
def named (hub : NetHub σ) (net : NodeId) (name : String) (pick : NodeStack σ → τ) : Option τ :=
  let on := fun want =>
    hub.nodeStacks.findSome? fun s => if s.net = want ∧ s.name = name then some (pick s) else none
  (on net).or ((routedNets hub.routers net).findSome? on)

/-- Join these networks with one more router. -/
def attachRouter (hub : NetHub σ) (nets : List NodeId) : NetHub σ := { hub with routers := hub.routers ++ [nets] }

/-- The first node called `name` on network `m`. -/
def first (hub : NetHub σ) (name : String) (m : NodeId) : Option (NodeStack σ) :=
  hub.nodeStacks.find? fun s => s.net = m ∧ s.name = name

/-- Network `m` has a node called `name`. -/
def Has (hub : NetHub σ) (name : String) (m : NodeId) : Prop := ∃ s ∈ hub.nodeStacks, s.net = m ∧ s.name = name

/-- Of the networks with a node called `name`, `m` has the best route from `net`: the
one with the fewest hops, and of these the first in the routers' order. -/
def Nearest (hub : NetHub σ) (net : NodeId) (name : String) (m : NodeId) : Prop :=
  hub.Has name m ∧ ∃ route, follow (neighbours hub.routers) net route = some m ∧
    ∀ route' m', follow (neighbours hub.routers) net route' = some m' → hub.Has name m' → m' ≠ m →
      rank route < rank route'

/-- No two stacks own one address. -/
def Distinct (hub : NetHub σ) : Prop :=
  ∀ (dst : IpAddress) (k k' : Nat) (s s' : NodeStack σ), hub.nodeStacks[k]? = some s →
    hub.nodeStacks[k']? = some s' → s.route.owns dst = true → s'.route.owns dst = true → k = k'

end NetHub

section Names

variable {σ τ : Type} {hub : NetHub σ} {net m : NodeId} {name : String} {s : NodeStack σ}

theorem first_spec (here : hub.first name m = some s) : s ∈ hub.nodeStacks ∧ s.net = m ∧ s.name = name :=
  ⟨List.mem_of_find?_eq_some here, by simpa using List.find?_some here⟩

theorem isSome_first : (hub.first name m).isSome = true ↔ hub.Has name m := by
  simp [NetHub.first, NetHub.Has]

theorem findSome?_eq_map {α β : Type} (p : α → Prop) [DecidablePred p] (f : α → β) (xs : List α) :
    (xs.findSome? fun x => if p x then some (f x) else none) = (xs.find? fun x => p x).map f := by
  induction xs with
  | nil => rfl
  | cons x xs ih =>
    rw [List.findSome?_cons, List.find?_cons]
    by_cases passes : p x
    · simp [passes]
    · simp [passes, ih]

theorem findSome?_eq_bind {α β : Type} (f : α → Option β) (xs : List α) :
    xs.findSome? f = (xs.find? fun x => (f x).isSome).bind f := by
  induction xs with
  | nil => rfl
  | cons x xs ih =>
    rw [List.findSome?_cons, List.find?_cons]
    cases here : f x with
    | none => simp [ih]
    | some y => simp [here]

/-- The name is looked for along the walk. -/
theorem named_eq (hub : NetHub σ) (net : NodeId) (name : String) (pick : NodeStack σ → τ) :
    hub.named net name pick = (((net :: routedNets hub.routers net).find?
      fun m => (hub.first name m).isSome).bind (hub.first name)).map pick := by
  have on : ∀ want, (hub.nodeStacks.findSome? fun s =>
      if s.net = want ∧ s.name = name then some (pick s) else none) = (hub.first name want).map pick :=
    fun want => findSome?_eq_map _ pick hub.nodeStacks
  have whole : hub.named net name pick =
      (net :: routedNets hub.routers net).findSome? fun want => (hub.first name want).map pick := by
    rw [NetHub.named]
    simp only [on]
    rw [List.findSome?_cons]
    cases (hub.first name net).map pick <;> rfl
  rw [whole, findSome?_eq_bind]
  simp only [Option.isSome_map]
  cases (net :: routedNets hub.routers net).find? fun m => (hub.first name m).isSome <;> rfl

/-- The first network of the walk with such a node is the nearest. -/
theorem find_eq_some_iff : ((net :: routedNets hub.routers net).find? fun m => (hub.first name m).isSome) = some m ↔
    hub.Nearest net name m := by
  obtain ⟨seen, ended, split, _⟩ := routedNets_ends hub.routers net
  obtain ⟨found, same, chart⟩ := walk_charted (Charting.begin (neighbours hub.routers) net) (Nat.zero_le _) ended
  rw [← split, ← same, chart.find_iff]
  simp only [isSome_first, NetHub.Nearest]

/-- **What a name means**: the first node called so on the nearest network that has one. -/
theorem named_eq_some_iff : hub.named net name id = some s ↔
    hub.Nearest net name s.net ∧ hub.first name s.net = some s := by
  rw [named_eq, Option.map_id, id, Option.bind_eq_some_iff]
  constructor
  · rintro ⟨m, nearest, here⟩
    rw [(first_spec here).2.1]
    exact ⟨find_eq_some_iff.1 nearest, here⟩
  · rintro ⟨nearest, here⟩
    exact ⟨s.net, find_eq_some_iff.2 nearest, here⟩

/-- A name keeps its meaning as long as its network stays the nearest. -/
theorem named_kept_iff {hub' : NetHub σ} (same : hub'.nodeStacks = hub.nodeStacks) :
    (∀ s, hub.named net name id = some s → hub'.named net name id = some s) ↔
      ∀ m, hub.Nearest net name m → hub'.Nearest net name m := by
  have firsts : ∀ m, hub'.first name m = hub.first name m := fun m => by
    rw [NetHub.first, same, NetHub.first]
  constructor
  · intro kept m nearest
    obtain ⟨s, here⟩ := Option.isSome_iff_exists.1 (isSome_first.2 nearest.1)
    obtain ⟨_, rfl, _⟩ := first_spec here
    exact (named_eq_some_iff.1 (kept s (named_eq_some_iff.2 ⟨nearest, here⟩))).1
  · intro stays s resolved
    obtain ⟨nearest, here⟩ := named_eq_some_iff.1 resolved
    exact named_eq_some_iff.2 ⟨stays s.net nearest, (firsts s.net).trans here⟩

end Names

/-! ## Frames -/

section Frames

variable {σ : Type} {tcp : Smoltcp σ} {hub : NetHub σ} {nets : List NodeId} {e : Handled} {dst : IpAddress}
  {k : Nat}

theorem Share.attach (hub : NetHub σ) (nets : List NodeId) {a b : NodeId} (share : Share hub.routers a b) :
    Share (hub.attachRouter nets).routers a b := by
  obtain ⟨r, member, here, there⟩ := share
  exact ⟨r, List.mem_append_left _ member, here, there⟩

/-- A router more leaves everyone within reach. -/
theorem Owner.attach (nets : List NodeId) {net : NodeId} (owner : hub.topology.Owner net dst k) :
    (hub.attachRouter nets).topology.Owner net dst k := by
  obtain ⟨r, found, chain, owns⟩ := owner
  exact ⟨r, found, Relation.ReflTransGen.mono (fun _ _ => Share.attach hub nets) _ _ chain, owns⟩

/-- Owners of one address are one stack. -/
theorem NetHub.Distinct.owner (distinct : hub.Distinct) {net net' : NodeId} {k' : Nat}
    (owner : hub.topology.Owner net dst k) (other : hub.topology.Owner net' dst k') : k = k' := by
  obtain ⟨r, found, _, owns⟩ := owner
  obtain ⟨r', found', _, owns'⟩ := other
  rw [NetHub.topology, List.getElem?_map] at found found'
  obtain ⟨s, here, rfl⟩ := Option.map_eq_some_iff.1 found
  obtain ⟨s', here', rfl⟩ := Option.map_eq_some_iff.1 found'
  exact distinct dst k k' s s' here here' owns owns'

/-- A unicast frame that reaches a stack reaches nothing else. -/
theorem Isolated.alone {top : Topology} (isolated : Isolated tcp top e) (named : frameDst tcp e.frame = some dst)
    (plain : isMulticast dst = false) (ready : e.fromTrunk = true ∨ isLoopback dst = false)
    (there : .stack k ∈ e.targets) : e.targets = [.stack k] := by
  obtain ⟨owners, single, _, outs⟩ := isolated.unicast dst named plain ready
  refine List.perm_singleton.1 ((List.perm_ext_iff_of_nodup isolated.once (List.nodup_singleton _)).2 fun port => ?_)
  rw [List.mem_singleton]
  constructor
  · intro here
    cases port with
    | stack k' => rw [single k' k here there]
    | trunk j => exact absurd (owners k there) (((outs j).1 here).2.2 k)
  · rintro rfl
    exact there

/-- What is delivered is nothing that a stack says to itself. -/
theorem ready_of_mem {job : Job} (named : frameDst tcp job.frame = some dst)
    (member : job ∈ ((hub.allSent tcp).filter fun job => !NetHub.loops tcp job.frame) ++
      (List.range hub.trunks.length).flatMap hub.broughtBy) : job.fromTrunk = true ∨ isLoopback dst = false := by
  rcases List.mem_append.1 member with sent | brought
  · have quiet := (List.mem_filter.1 sent).2
    rw [NetHub.loops, named, Option.any_some, Bool.not_eq_true'] at quiet
    exact .inr quiet
  · obtain ⟨j, _, inner⟩ := List.mem_flatMap.1 brought
    exact .inl (broughtBy_ready inner)

/-- A unicast frame that reaches a stack is handled alike with a router more. -/
theorem step_attachRouter (nets : List NodeId) (distinct : hub.Distinct) {i : Nat}
    (handled : (hub.step tcp).2[i]? = some e) (named : frameDst tcp e.frame = some dst)
    (plain : isMulticast dst = false) (there : .stack k ∈ e.targets) :
    ((hub.attachRouter nets).step tcp).2[i]? = some e := by
  obtain ⟨later, records, _, isolated, jobs⟩ := route_spec tcp hub
  obtain ⟨later', records', _, isolated', jobs'⟩ := route_spec tcp (hub.attachRouter nets)
  have before : (hub.step tcp).2 = hub.looped tcp ++ later := records
  have after : ((hub.attachRouter nets).step tcp).2 = hub.looped tcp ++ later' := records'
  have same : later'.map Handled.toJob = later.map Handled.toJob := jobs'.trans jobs.symm
  rw [before, List.getElem?_append] at handled
  rw [after, List.getElem?_append]
  by_cases loops : i < (hub.looped tcp).length
  · rw [if_pos loops] at handled ⊢
    exact handled
  · rw [if_neg loops] at handled ⊢
    have here : (later'.map Handled.toJob)[i - (hub.looped tcp).length]? = some e.toJob := by
      rw [same, List.getElem?_map, handled]
      rfl
    rw [List.getElem?_map] at here
    obtain ⟨e', found, job⟩ := Option.map_eq_some_iff.1 here
    have member := List.mem_of_getElem? handled
    have ready : e.fromTrunk = true ∨ isLoopback dst = false :=
      ready_of_mem named (jobs ▸ List.mem_map_of_mem member)
    have alone := (isolated e member).alone named plain ready there
    have isolated' := isolated' e' (List.mem_of_getElem? found)
    have owner := Owner.attach nets (((isolated e member).unicast dst named plain ready).1 k there)
    have named' : frameDst tcp e'.frame = some dst := by rw [job]; exact named
    have ready' : e'.fromTrunk = true ∨ isLoopback dst = false := by rw [job]; exact ready
    have net : e'.net = e.net := by rw [job]
    obtain ⟨owners, _, reach, _⟩ := isolated'.unicast dst named' plain ready'
    obtain ⟨k', there'⟩ := reach ⟨k, net ▸ owner⟩
    have apart : (hub.attachRouter nets).Distinct := distinct
    have one : k' = k := apart.owner (owners k' there') owner
    have targets : e'.targets = e.targets := by
      rw [alone, isolated'.alone named' plain ready' there', one]
    rw [found]
    cases e
    cases e'
    cases job
    cases targets
    rfl

/-- **Bridging.** With a router more a name keeps its node exactly when the network it
was found on is still the nearest with a namesake.  Where addresses are unique, every
unicast frame that reached a stack is handled as before. -/
theorem bridged (tcp : Smoltcp σ) (hub : NetHub σ) (nets : List NodeId) :
    (∀ net name, (∀ s, hub.named net name id = some s → (hub.attachRouter nets).named net name id = some s) ↔
      ∀ m, hub.Nearest net name m → (hub.attachRouter nets).Nearest net name m) ∧
    (hub.Distinct → ∀ (i : Nat) (e : Handled) (dst : IpAddress) (k : Nat), (hub.step tcp).2[i]? = some e →
      frameDst tcp e.frame = some dst → isMulticast dst = false → .stack k ∈ e.targets →
        ((hub.attachRouter nets).step tcp).2[i]? = some e) :=
  ⟨fun _ _ => named_kept_iff rfl,
    fun distinct _ _ _ _ handled named plain there => step_attachRouter nets distinct handled named plain there⟩

/-- Two nodes called `x`, on the networks 3 and 4; from network 1 a chain of two
routers leads to network 3. -/
def village : NetHub Unit where
  nodeStacks := [3, 4].map fun n : Nat =>
    { id := n, net := n, ip := { o0 := 10, o1 := 0, o2 := 0, o3 := n.toUInt8 }, ip6 := .localhost
      name := "x", inner := () }
  routers := [[1, 2], [2, 3]]

/-- A packet for `10.0.0.3`. -/
def postcard : Frame := [0x45, 0, 0, 20, 0, 0, 0, 0, 64, 17, 0x66, 0xce, 10, 0, 0, 9, 10, 0, 0, 3]

/-- A library whose stacks keep still. -/
def stillLib : Smoltcp Unit where
  boot _ _ := ()
  poll s _ := (s, [], [])
  joinMulticastGroup s _ := s
  reapClosing s := s
  ipv4Dst frame := match frame.drop 16 with
    | o0 :: o1 :: o2 :: o3 :: _ => some { o0, o1, o2, o3 }
    | _ => none
  ipv6Dst _ := none

/-- The village, with the packet coming in on network 1. -/
def mailed : NetHub Unit :=
  { village with
    nodeStacks := village.nodeStacks.map fun s => { s with ip6 := ula s.ip }
    trunks := [{ id := 0, net := 1, inbound := [postcard] }] }

theorem mailed_distinct : mailed.Distinct := by
  intro dst k k' s s' here here' owns owns'
  have alone : ∀ a ∈ mailed.nodeStacks.zipIdx, ∀ b ∈ mailed.nodeStacks.zipIdx,
      a.1.ip = b.1.ip ∨ a.1.ip6 = b.1.ip6 → a.2 = b.2 := by decide
  refine alone (s, k) (List.mem_zipIdx_iff_getElem?.2 here) (s', k') (List.mem_zipIdx_iff_getElem?.2 here') ?_
  cases dst with
  | ipv4 a =>
    simp only [Route.owns, NodeStack.route, IpAddress.ipv4.injEq, reduceCtorEq, decide_false, Bool.or_false,
      decide_eq_true_eq] at owns owns'
    exact .inl (owns.symm.trans owns')
  | ipv6 a =>
    simp only [Route.owns, NodeStack.route, IpAddress.ipv6.injEq, reduceCtorEq, decide_false, Bool.false_or,
      decide_eq_true_eq] at owns owns'
    exact .inr (owns.symm.trans owns')

/-- The packet goes to the node on network 3 with a router more too. -/
theorem bridged_mailed : ((mailed.attachRouter [1, 4]).step stillLib).2[0]? =
    some { origin := .trunk 0, net := 1, frame := postcard, targets := [.stack 0] } :=
  (bridged stillLib mailed [1, 4]).2 mailed_distinct 0 _ (.ipv4 { o0 := 10, o1 := 0, o2 := 0, o3 := 3 }) 0
    (by decide +kernel) (by decide) (by decide) (by decide)

/-- A router between the networks 1 and 4 gives `x` another meaning on network 1. -/
theorem namesake_nearer : (village.named 1 "x" NodeStack.id = some 3) ∧
    (village.attachRouter [1, 4]).named 1 "x" NodeStack.id = some 4 := by
  decide

end Frames

end Wk.Fabric
