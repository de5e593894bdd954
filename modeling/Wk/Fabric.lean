/-
# Wk.Fabric -- the addresses of the network fabric

Every node on the fabric has a stack with an IPv4 address `10.0.0.x` and the IPv6
address derived from its host octet.  `NetHub.allocIp` chooses an octet no attached
stack has, `NetHub.attach` claims it, and the two lock the hub one after the other:
a `Fleet` is the hub with the addresses its threads have chosen and not yet claimed.

* `alloc_free`: below 250 stacks the octet chosen is free and in range.
* `run_unique`: a run keeps all addresses apart exactly when it is `Unraced`: no
  thread claims an octet that was claimed after it made its choice.

Poles: `two_forwards` (two forwards one after the other), `two_forwards_race` (both
choose before either claims).
-/
import Mathlib
import Wk.Protocol
import Wk.Library.Run

namespace Wk.Fabric

open Wk.Library

set_option autoImplicit false

/-! ## Addresses -/

/-- An IPv4 address, by its octets. -/
structure Ipv4 where
  o0 : UInt8
  o1 : UInt8
  o2 : UInt8
  o3 : UInt8
  deriving DecidableEq, Repr

/-- An IPv6 address, by its eight segments. -/
structure Ipv6 where
  segments : Vector UInt16 8
  deriving DecidableEq, Repr

/-- `::1`. -/
def Ipv6.localhost : Ipv6 := ⟨#v[0, 0, 0, 0, 0, 0, 0, 1]⟩

inductive IpAddress where
  | ipv4 (a : Ipv4)
  | ipv6 (a : Ipv6)
  deriving DecidableEq, Repr

/-- One raw IP packet on the fabric. -/
abbrev Frame := Bytes

/-! ## The hub -/

/-- One node's network stack: the network it is on, its addresses, the queues of its
NIC, and `inner`, everything the TCP/IP library keeps for it.  The `id` tells stacks
apart. -/
structure NodeStack (σ : Type) where
  id : Nat
  net : NodeId
  ip : Ipv4
  ip6 : Ipv6
  name : String
  inner : σ
  rx : List Frame := []
  tx : List Frame := []
  deriving DecidableEq

/-- A trunk port: the frames leaving its network and those arriving from elsewhere. -/
structure TrunkPort where
  id : Nat
  net : NodeId
  outbound : List Frame := []
  inbound : List Frame := []
  deriving DecidableEq, Repr

/-- The hub: every stack, every trunk, and the networks each router joins. -/
structure NetHub (σ : Type) where
  nodeStacks : List (NodeStack σ) := []
  trunks : List TrunkPort := []
  routers : List (List NodeId) := []
  attached : Nat := 0

/-- The IPv6 address of a node, derived from its IPv4 host octet. -/
def ula (ip : Ipv4) : Ipv6 := ⟨#v[0xfd00, 0, 0, 0, 0, 0, 0, ip.o3.toUInt16]⟩

/-- The octet after this one, from 251 back to 2. -/
def nextOctet (octet : UInt8) : UInt8 := 2 + (octet - 1) % 250

/-- `seed.clamp(2, 251)`. -/
def clampOctet (seed : UInt8) : UInt8 := if seed < 2 then 2 else if 251 < seed then 251 else seed

/-- Walk at most `n` octets on from `octet`, to the first that is not used. -/
def probe (used : List UInt8) : Nat → UInt8 → UInt8
  | 0, octet => octet
  | n + 1, octet => if octet ∉ used then octet else probe used n (nextOctet octet)

namespace NetHub

variable {σ : Type}

/-- The host octets of the attached stacks. -/
def used (hub : NetHub σ) : List UInt8 := hub.nodeStacks.map fun s => s.ip.o3

/-- Pick an address whose host octet no attached stack has, starting from `seed`. -/
def allocIp (hub : NetHub σ) (seed : UInt8) : Ipv4 :=
  { o0 := 10, o1 := 0, o2 := 0, o3 := probe hub.used 250 (clampOctet seed) }

/-- Attach a node to network `net` at address `ip`. -/
def attach (boot : Ipv4 → Ipv6 → σ) (hub : NetHub σ) (net : NodeId) (ip : Ipv4) (name : String) :
    NetHub σ :=
  { hub with
    nodeStacks := hub.nodeStacks ++ [{ id := hub.attached, net, ip, ip6 := ula ip, name, inner := boot ip (ula ip) }]
    attached := hub.attached + 1 }

/-- Remove a stack from the hub. -/
def detach (hub : NetHub σ) (id : Nat) : NetHub σ :=
  { hub with nodeStacks := hub.nodeStacks.filter fun s => s.id ≠ id }

end NetHub

/-! ## The walk over the octets -/

/-- Host octets live in `2..=251`. -/
def HostOctet (octet : UInt8) : Prop := 2 ≤ octet.toNat ∧ octet.toNat ≤ 251

theorem toNat_nextOctet {octet : UInt8} (host : HostOctet octet) :
    (nextOctet octet).toNat = 2 + (octet.toNat - 2 + 1) % 250 := by
  obtain ⟨low, high⟩ := host
  have less : (octet - 1).toNat = octet.toNat - 1 :=
    UInt8.toNat_sub_of_le octet 1 (by simpa [UInt8.le_iff_toNat_le] using by omega)
  unfold nextOctet
  rw [UInt8.toNat_add, UInt8.toNat_mod, less]
  have small : (octet.toNat - 1) % 250 < 250 := Nat.mod_lt _ (by decide)
  have same : octet.toNat - 2 + 1 = octet.toNat - 1 := by omega
  have two : (2 : UInt8).toNat = 2 := rfl
  have cycle : (250 : UInt8).toNat = 250 := rfl
  rw [same, two, cycle]
  omega

theorem HostOctet.next {octet : UInt8} (host : HostOctet octet) : HostOctet (nextOctet octet) := by
  have small : (octet.toNat - 2 + 1) % 250 < 250 := Nat.mod_lt _ (by decide)
  have value := toNat_nextOctet host
  exact ⟨by omega, by omega⟩

/-- The octet `k` steps on. -/
theorem toNat_iterate_nextOctet {octet : UInt8} (host : HostOctet octet) :
    ∀ k, HostOctet (nextOctet^[k] octet) ∧
      (nextOctet^[k] octet).toNat = 2 + (octet.toNat - 2 + k) % 250
  | 0 => by
    obtain ⟨low, high⟩ := host
    refine ⟨⟨low, high⟩, ?_⟩
    rw [Function.iterate_zero, id_eq, Nat.add_zero, Nat.mod_eq_of_lt (by omega)]
    omega
  | k + 1 => by
    obtain ⟨here, value⟩ := toNat_iterate_nextOctet host k
    rw [Function.iterate_succ_apply']
    refine ⟨here.next, ?_⟩
    rw [toNat_nextOctet here, value]
    omega

theorem probe_host (used : List UInt8) :
    ∀ (n : Nat) {octet : UInt8}, HostOctet octet → HostOctet (probe used n octet)
  | 0, _, host => host
  | n + 1, octet, host => by
    unfold probe
    split
    · exact host
    · exact probe_host used n host.next

/-- The walk stops at a free octet, or every octet it passed is used. -/
theorem probe_free (used : List UInt8) :
    ∀ (n : Nat) (octet : UInt8), probe used n octet ∉ used ∨ ∀ k < n, nextOctet^[k] octet ∈ used
  | 0, _ => .inr fun k small => absurd small (Nat.not_lt_zero k)
  | n + 1, octet => by
    unfold probe
    split
    · next free => exact .inl free
    · next taken =>
        refine (probe_free used n (nextOctet octet)).imp_right fun passed k small => ?_
        cases k with
        | zero => exact not_not.1 taken
        | succ k =>
          rw [Function.iterate_succ_apply]
          exact passed k (by omega)

/-- With fewer than 250 octets used, 250 steps from a host octet reach a free one. -/
theorem probe_reaches {used : List UInt8} (room : used.length < 250) {octet : UInt8}
    (host : HostOctet octet) : probe used 250 octet ∉ used := by
  refine (probe_free used 250 octet).resolve_right fun passed => ?_
  have apart : Set.InjOn (fun k => nextOctet^[k] octet) (Finset.range 250 : Set Nat) := by
    intro j inJ k inK same
    simp only [Finset.coe_range, Set.mem_Iio] at inJ inK
    have values := congrArg UInt8.toNat same
    rw [(toNat_iterate_nextOctet host j).2, (toNat_iterate_nextOctet host k).2] at values
    omega
  have sub : (Finset.range 250).image (fun k => nextOctet^[k] octet) ⊆ used.toFinset := by
    intro o member
    obtain ⟨k, small, rfl⟩ := Finset.mem_image.1 member
    exact List.mem_toFinset.2 (passed k (Finset.mem_range.1 small))
  have many := Finset.card_le_card sub
  rw [Finset.card_image_of_injOn apart, Finset.card_range] at many
  have few := List.toFinset_card_le used
  omega

/-- A seed that is a host octet is where the walk starts. -/
theorem clampOctet_host (seed : UInt8) :
    HostOctet (clampOctet seed) ∧ (HostOctet seed → clampOctet seed = seed) := by
  have two : (2 : UInt8).toNat = 2 := rfl
  have last : (251 : UInt8).toNat = 251 := rfl
  unfold clampOctet HostOctet
  simp only [UInt8.lt_iff_toNat_lt, two, last]
  split
  · next low => exact ⟨by decide, fun host => by omega⟩
  · split
    · next high => exact ⟨by decide, fun host => by omega⟩
    · exact ⟨⟨by omega, by omega⟩, fun _ => rfl⟩

namespace NetHub

variable {σ : Type} (hub : NetHub σ)

theorem allocIp_host (seed : UInt8) : HostOctet (hub.allocIp seed).o3 :=
  probe_host hub.used 250 (clampOctet_host seed).1

/-- **The octet chosen is free** while fewer than 250 stacks are attached. -/
theorem alloc_free (room : hub.nodeStacks.length < 250) (seed : UInt8) :
    (hub.allocIp seed).o3 ∉ hub.used :=
  probe_reaches (by simpa [used] using room) (clampOctet_host seed).1

/-- A free host octet is kept. -/
theorem allocIp_seed {seed : UInt8} (host : HostOctet seed) (free : seed ∉ hub.used) :
    (hub.allocIp seed).o3 = seed := by
  have start : clampOctet seed = seed := (clampOctet_host seed).2 host
  unfold allocIp
  dsimp only
  rw [start, probe, if_pos free]

end NetHub

/-! ## Threads -/

/-- The hub, and the address each thread has chosen and not yet claimed, with the
number of stacks that had ever been attached when it chose. -/
structure Fleet (σ : Type) where
  hub : NetHub σ := {}
  chosen : Nat → Option (Ipv4 × Nat) := fun _ => none

/-- One critical section. -/
inductive Turn where
  /-- Thread `t` calls `alloc_ip`. -/
  | choose (t : Nat) (seed : UInt8)
  /-- Thread `t` calls `attach` with the address it chose. -/
  | claim (t : Nat) (net : NodeId) (name : String)
  | detach (id : Nat)
  deriving DecidableEq, Repr

namespace Fleet

variable {σ : Type} (boot : Ipv4 → Ipv6 → σ)

def turn (fleet : Fleet σ) : Turn → Fleet σ
  | .choose t seed =>
    { fleet with
      chosen := Function.update fleet.chosen t (some (fleet.hub.allocIp seed, fleet.hub.attached)) }
  | .claim t net name =>
    match fleet.chosen t with
    | none => fleet
    | some (ip, _) =>
      { hub := fleet.hub.attach boot net ip name, chosen := Function.update fleet.chosen t none }
  | .detach id => { fleet with hub := fleet.hub.detach id }

/-- There is room wherever a thread chooses. -/
def Room (fleet : Fleet σ) : Turn → Prop
  | .choose .. => fleet.hub.nodeStacks.length < 250
  | _ => True

/-- No stack attached since the thread chose has the address it claims. -/
def Unraced (fleet : Fleet σ) : Turn → Prop
  | .claim t .. => ∀ ip since, fleet.chosen t = some (ip, since) →
      ∀ s ∈ fleet.hub.nodeStacks, since ≤ s.id → s.ip ≠ ip
  | _ => True

/-- A free host octet is what the thread that seeds with it gets. -/
def HonoursSeed (fleet : Fleet σ) : Turn → Prop
  | .choose _ seed => HostOctet seed → seed ∉ fleet.hub.used → (fleet.hub.allocIp seed).o3 = seed
  | _ => True

end Fleet

/-- No two attached stacks share an address, and every host octet is in range. -/
structure NetHub.Unique {σ : Type} (hub : NetHub σ) : Prop where
  ip : (hub.nodeStacks.map NodeStack.ip).Nodup
  ip6 : (hub.nodeStacks.map NodeStack.ip6).Nodup
  host : ∀ s ∈ hub.nodeStacks, HostOctet s.ip.o3

namespace Fleet

variable {σ : Type} {boot : Ipv4 → Ipv6 → σ} {fleet : Fleet σ}

/-- An address of the fabric. -/
def OnFabric (ip : Ipv4) : Prop := HostOctet ip.o3 ∧ ip = { o0 := 10, o1 := 0, o2 := 0, o3 := ip.o3 }

/-- What every turn keeps, raced or not. -/
structure Sound (fleet : Fleet σ) : Prop where
  fabric : ∀ s ∈ fleet.hub.nodeStacks, OnFabric s.ip
  derived : ∀ s ∈ fleet.hub.nodeStacks, s.ip6 = ula s.ip
  numbered : ∀ s ∈ fleet.hub.nodeStacks, s.id < fleet.hub.attached
  choice : ∀ t ip since, fleet.chosen t = some (ip, since) →
    OnFabric ip ∧ since ≤ fleet.hub.attached
  /-- What was attached when a thread chose has another address. -/
  free : ∀ t ip since, fleet.chosen t = some (ip, since) →
    ∀ s ∈ fleet.hub.nodeStacks, s.id < since → s.ip ≠ ip

theorem Sound.start : (({} : Fleet σ)).Sound := ⟨nofun, nofun, nofun, nofun, nofun⟩

theorem Sound.turn (boot : Ipv4 → Ipv6 → σ) (sound : fleet.Sound) {x : Turn} (room : fleet.Room x) :
    (fleet.turn boot x).Sound := by
  cases x with
  | choose t seed =>
    refine ⟨sound.fabric, sound.derived, sound.numbered, ?_, ?_⟩
    · intro t' ip since chosen
      simp only [Fleet.turn, Function.update_apply] at chosen
      split at chosen
      · cases chosen
        exact ⟨⟨NetHub.allocIp_host _ seed, rfl⟩, le_rfl⟩
      · exact sound.choice t' ip since chosen
    · intro t' ip since chosen s attached older
      simp only [Fleet.turn, Function.update_apply] at chosen
      split at chosen
      · cases chosen
        intro same
        have free := NetHub.alloc_free fleet.hub room seed
        exact free (List.mem_map.2 ⟨s, attached, by rw [same]⟩)
      · exact sound.free t' ip since chosen s attached older
  | claim t net name =>
    unfold Fleet.turn
    dsimp only
    split
    · exact sound
    · next ip since chosen =>
        have keeps : ∀ t' ip' since', Function.update fleet.chosen t none t' = some (ip', since') →
            fleet.chosen t' = some (ip', since') := by
          intro t' ip' since' still
          rw [Function.update_apply] at still
          split at still
          · cases still
          · exact still
        have member : ∀ {s}, s ∈ (fleet.hub.attach boot net ip name).nodeStacks →
            s ∈ fleet.hub.nodeStacks ∨
              s.id = fleet.hub.attached ∧ s.ip = ip ∧ s.ip6 = ula ip := by
          intro s member
          refine (List.mem_append.1 member).imp_right fun new => ?_
          rw [List.mem_singleton.1 new]
          exact ⟨rfl, rfl, rfl⟩
        refine ⟨fun s m => ?_, fun s m => ?_, fun s m => ?_, fun t' ip' since' still => ?_,
          fun t' ip' since' still s m older => ?_⟩
        · rcases member m with old | ⟨_, here, _⟩
          · exact sound.fabric s old
          · exact here ▸ (sound.choice t ip since chosen).1
        · rcases member m with old | ⟨_, here, here6⟩
          · exact sound.derived s old
          · rw [here6, here]
        · rcases member m with old | ⟨last, _⟩
          · exact Nat.lt_succ_of_lt (sound.numbered s old)
          · exact last ▸ Nat.lt_succ_self _
        · have was := sound.choice t' ip' since' (keeps t' ip' since' still)
          exact ⟨was.1, Nat.le_succ_of_le was.2⟩
        · have was := sound.choice t' ip' since' (keeps t' ip' since' still)
          rcases member m with old | ⟨last, _⟩
          · exact sound.free t' ip' since' (keeps t' ip' since' still) s old older
          · omega
  | detach id =>
    have sub : ∀ s ∈ (fleet.hub.detach id).nodeStacks, s ∈ fleet.hub.nodeStacks :=
      fun s member => (List.mem_filter.1 member).1
    exact ⟨fun s m => sound.fabric s (sub s m), fun s m => sound.derived s (sub s m),
      fun s m => sound.numbered s (sub s m), sound.choice,
      fun t ip since chosen s m => sound.free t ip since chosen s (sub s m)⟩

/-- The IPv6 address gives the host octet back. -/
theorem ula_inj {ip ip' : Ipv4} (on : OnFabric ip) (on' : OnFabric ip') (same : ula ip = ula ip') :
    ip = ip' := by
  have octet : ip.o3 = ip'.o3 := by
    have last := congrArg (fun a : Ipv6 => a.segments[7]) same
    exact UInt8.toUInt16_inj.1 last
  rw [on.2, on'.2, octet]

/-- Where the addresses of the attached stacks are apart, everything claimed of them
holds. -/
theorem Sound.unique (sound : fleet.Sound) (apart : (fleet.hub.nodeStacks.map NodeStack.ip).Nodup) :
    fleet.hub.Unique where
  ip := apart
  ip6 := by
    have derived : fleet.hub.nodeStacks.map NodeStack.ip6 =
        (fleet.hub.nodeStacks.map NodeStack.ip).map ula := by
      rw [List.map_map]
      exact List.map_congr_left sound.derived
    rw [derived]
    refine apart.map_on fun ip member ip' member' same => ?_
    obtain ⟨s, attached, rfl⟩ := List.mem_map.1 member
    obtain ⟨s', attached', rfl⟩ := List.mem_map.1 member'
    exact ula_inj (sound.fabric s attached) (sound.fabric s' attached') same
  host s attached := (sound.fabric s attached).1

/-- A turn keeps the addresses apart exactly when it is unraced. -/
theorem Sound.turn_apart (boot : Ipv4 → Ipv6 → σ) (sound : fleet.Sound)
    (apart : (fleet.hub.nodeStacks.map NodeStack.ip).Nodup) (x : Turn) :
    ((fleet.turn boot x).hub.nodeStacks.map NodeStack.ip).Nodup ↔ fleet.Unraced x := by
  cases x with
  | choose t seed => exact iff_of_true apart trivial
  | detach id =>
    refine iff_of_true ?_ trivial
    exact (List.filter_sublist.map NodeStack.ip).nodup apart
  | claim t net name =>
    cases chosen : fleet.chosen t with
    | none =>
      simp only [Fleet.turn, Unraced, chosen]
      exact iff_of_true apart fun ip since same => by cases same
    | some choice =>
      obtain ⟨ip, since⟩ := choice
      have grown : (fleet.hub.attach boot net ip name).nodeStacks.map NodeStack.ip =
          fleet.hub.nodeStacks.map NodeStack.ip ++ [ip] := by
        rw [NetHub.attach, List.map_append]
        rfl
      simp only [Fleet.turn, Unraced, chosen]
      rw [grown, List.nodup_append_comm, List.singleton_append, List.nodup_cons,
        and_iff_left apart, List.mem_map]
      constructor
      · intro new ip' since' same s attached _ taken
        cases same
        exact new ⟨s, attached, taken⟩
      · rintro unraced ⟨s, attached, taken⟩
        rcases Nat.lt_or_ge s.id since with older | newer
        · exact sound.free t ip since chosen s attached older taken
        · exact unraced ip since rfl s attached newer taken

theorem honoursSeed (fleet : Fleet σ) : ∀ x : Turn, fleet.HonoursSeed x
  | .choose _ _ => fun host free => NetHub.allocIp_seed _ host free
  | .claim .. | .detach _ => trivial

/-- The run lemma: from any sound state with its addresses apart. -/
theorem always_unique : ∀ {turns : List Turn} {fleet : Fleet σ}, fleet.Sound →
    (fleet.hub.nodeStacks.map NodeStack.ip).Nodup → Along (turn boot) Room fleet turns →
    ((∀ done, done <+: turns → (done.foldl (turn boot) fleet).hub.Unique) ↔
      Along (turn boot) Unraced fleet turns)
  | [], fleet, sound, apart, _ => by
    refine iff_of_true (fun done before => ?_) trivial
    rw [List.prefix_nil.1 before]
    exact sound.unique apart
  | x :: turns, fleet, sound, apart, room => by
    have step := sound.turn_apart boot apart x
    have next := sound.turn boot room.1
    constructor
    · intro always
      have here : (fleet.turn boot x).hub.Unique := always [x] ⟨turns, rfl⟩
      refine ⟨step.1 here.ip, (always_unique next here.ip room.2).1 fun done before => ?_⟩
      exact always (x :: done) (List.cons_prefix_cons.2 ⟨rfl, before⟩)
    · rintro ⟨unraced, rest⟩ done before
      cases done with
      | nil => exact sound.unique apart
      | cons y done =>
        obtain ⟨same, tail⟩ := List.cons_prefix_cons.1 before
        subst same
        exact (always_unique next (step.2 unraced) room.2).2 rest done tail

/-- **Addresses are unique**, in every state of a run and with every free seed
honoured, exactly when the run is unraced. -/
theorem run_unique (boot : Ipv4 → Ipv6 → σ) {turns : List Turn}
    (room : Along (turn boot) Room {} turns) :
    ((∀ done, done <+: turns → (done.foldl (turn boot) {}).hub.Unique) ∧
      Along (turn boot) HonoursSeed {} turns) ↔ Along (turn boot) Unraced {} turns := by
  have honoured : ∀ (turns : List Turn) (fleet : Fleet σ), Along (turn boot) HonoursSeed fleet turns := by
    intro turns
    induction turns with
    | nil => exact fun _ => trivial
    | cons x turns ih => exact fun fleet => ⟨honoursSeed fleet x, ih _⟩
  rw [and_iff_left (honoured turns {})]
  exact always_unique .start List.nodup_nil room

section Poles

/-- Two port forwards, each choosing and then claiming. -/
def forwards : List Turn := [.choose 1 2, .claim 1 7 "", .choose 2 2, .claim 2 7 ""]

theorem two_forwards : Along (turn fun _ _ => ()) Room {} forwards ∧
    ∀ done, done <+: forwards → (done.foldl (turn fun _ _ => ()) {}).hub.Unique := by
  have room : Along (turn fun _ _ => ()) Room {} forwards :=
    ⟨(by decide : 0 < 250), trivial, (by decide : 1 < 250), trivial, trivial⟩
  refine ⟨room, ((run_unique (fun _ _ => ()) room).2 ⟨trivial, ?_, trivial, ?_, trivial⟩).1⟩
  · intro ip since chosen s attached
    cases attached
  · intro ip since chosen s attached newer
    cases chosen
    rw [List.mem_singleton.1 attached] at newer
    exact absurd newer (by decide)

/-- The same two, both choosing before either claims. -/
def racing : List Turn := [.choose 1 2, .choose 2 2, .claim 1 7 "", .claim 2 7 ""]

theorem two_forwards_race : Along (turn fun _ _ => ()) Room {} racing ∧
    ¬(racing.foldl (turn fun _ _ => ()) {}).hub.Unique := by
  refine ⟨⟨(by decide : 0 < 250), (by decide : 0 < 250), trivial, trivial, trivial⟩, fun unique => ?_⟩
  exact absurd unique.ip (by decide)

end Poles

end Fleet

end Wk.Fabric
