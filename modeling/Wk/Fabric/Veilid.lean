/-
# Wk.Fabric.Veilid -- the routes a Veilid uplink holds

The driver of a Veilid uplink is one loop: it takes an update of the network, a message to
dial, a tick of the pump or a tick of the retry timer, and finishes with it before the next.
A peer's private route reaches it with a hello, a hello-ack or a fetch of the record it
dials; its own route is published when it attaches, when it died, and on a retry.

What the network answers comes with each event: whether a publication or a fetch succeeds,
which route a blob imports to, and which sends fail.

* `Driver.Sound`: no route is listed twice, and each listed one has had our blob since it was
  published, or is on record as an exception.
* `peers_hold_route`: what holds of the peers in every run.

Poles: `peers_unheard` (a hello-ack, a late publication, a failed answer).
-/
import Wk.Fabric
import Wk.Library.Run

namespace Wk.Fabric.Veilid

open Wk.Library

set_option autoImplicit false

/-- First byte of every tunnel message. -/
def tagFrame : UInt8 := 0x00

def tagHello : UInt8 := 0x01

def tagHelloAck : UInt8 := 0x02

def tagBye : UInt8 := 0x03

/-- A peer route, tagged with whether this side sought it out. -/
structure Peer (R : Type) where
  route : R
  dialed : Bool
  deriving DecidableEq, Repr

/-- What happened since the current route was published. -/
inductive Note (R : Type) where
  /-- A message was sent to a route. -/
  | sent (route : R) (msg : Bytes)
  /-- The route was a peer's already, and the publication was not told to it. -/
  | listed (route : R)
  /-- A hello-ack brought the route. -/
  | brought (route : R)
  /-- A hello brought the route, and the answer could not be sent. -/
  | unanswered (route : R)
  deriving DecidableEq, Repr

/-- The state of the loop: `R` are route ids, `K` record keys. -/
structure Driver (R K : Type) where
  attached : Bool := false
  /-- Our current private route, with its blob. -/
  local' : Option (R × Bytes) := none
  target : Option K := none
  peers : List (Peer R) := []
  injected : List Bytes := []
  notes : List (Note R) := []

inductive Event (R K : Type) where
  /-- An attachment update; `ready` says it is attached with the public internet ready. -/
  | attachment (ready : Bool) (published : Option (R × Bytes))
  /-- A message; `route` is what the blob after its tag imports to. -/
  | message (msg : Bytes) (route : Option R) (sent : Bool)
  | routeChange (deadRoutes deadRemoteRoutes : List R) (published : Option (R × Bytes)) (sent : R → Bool)
  /-- The target is set or cleared. -/
  | dial (new : Option K) (sent : R → Bool)
  /-- The pump drains frames. -/
  | pump (frames : List Frame) (sent : Frame → R → Bool)
  | retry (published : Option (R × Bytes)) (fetched : Option R) (sent : Bool)

namespace Driver

variable {R K : Type} [DecidableEq R]

def addPeer (d : Driver R K) (route : R) (dialed : Bool) : Driver R K :=
  if d.peers.any fun p => p.route = route then
    { d with peers := d.peers.map fun p => if p.route = route then { p with dialed := p.dialed || dialed } else p }
  else { d with peers := d.peers ++ [{ route, dialed }] }

/-- Drop a route. -/
def prune (d : Driver R K) (route : R) : Driver R K := { d with peers := d.peers.filter fun p => p.route ≠ route }

def note (d : Driver R K) (n : Note R) : Driver R K := { d with notes := d.notes ++ [n] }

/-- Send a message to a peer route, dropping the route if the send fails. -/
def sendTo (d : Driver R K) (sent : Bool) (route : R) (msg : Bytes) : Driver R K :=
  if sent then d.note (.sent route msg) else d.prune route

/-- Send a message to routes, one after another. -/
def sendAll (d : Driver R K) (sent : R → Bool) (msg : Bytes) (routes : List R) : Driver R K :=
  routes.foldl (fun d r => d.sendTo (sent r) r msg) d

/-- The route of the publication, if it succeeded, is the current one; none of the peers has
been told. -/
def publishRoute (d : Driver R K) (published : Option (R × Bytes)) : Driver R K :=
  { d with local' := published, notes := d.peers.map fun p => .listed p.route }

/-- A hello or a hello-ack: the route it brings is a peer's, and a hello is answered. -/
def hello (d : Driver R K) (ack : Bool) (route : R) (sent : Bool) : Driver R K :=
  let d := d.addPeer route false
  if ack then
    match d.local' with
    | some (_, blob) => d.note (if sent then .sent route (tagHelloAck :: blob) else .unanswered route)
    | none => d
  else d.note (.brought route)

def message (d : Driver R K) (msg : Bytes) (route : Option R) (sent : Bool) : Driver R K :=
  match msg with
  | [] => d
  | tag :: body =>
    if tag = tagFrame then { d with injected := d.injected ++ [body] }
    else if tag = tagHello || tag = tagHelloAck then
      match route with
      | some route => d.hello (tag = tagHello) route sent
      | none => d
    else if tag = tagBye then
      match route with
      | some route => d.prune route
      | none => d
    else d

def routeChange (d : Driver R K) (deadRoutes deadRemoteRoutes : List R) (published : Option (R × Bytes))
    (sent : R → Bool) : Driver R K :=
  let d := { d with peers := d.peers.filter fun p => p.route ∉ deadRemoteRoutes }
  if d.local'.any fun own => own.1 ∈ deadRoutes then
    let d := d.publishRoute published
    match d.local' with
    | some (_, blob) =>
      -- Refresh every live peer with the new route.
      { d with notes := [] }.sendAll sent (tagHelloAck :: blob) (d.peers.map Peer.route)
    | none => d
  else d

def dial (d : Driver R K) (new : Option K) (sent : R → Bool) : Driver R K :=
  let d := { d with target := new }
  if new.isNone then
    let dialed := (d.peers.filter (·.dialed)).map Peer.route
    let d := { d with peers := d.peers.filter fun p => !p.dialed }
    match d.local' with
    | some (_, blob) => { d with notes := d.notes ++ (dialed.filter sent).map fun r => .sent r (tagBye :: blob) }
    | none => d
  else d

def pump (d : Driver R K) (frames : List Frame) (sent : Frame → R → Bool) : Driver R K :=
  let routes := d.peers.map Peer.route
  frames.foldl (fun d frame => d.sendAll (sent frame) (tagFrame :: frame) routes) d

def retry (d : Driver R K) (published : Option (R × Bytes)) (fetched : Option R) (sent : Bool) : Driver R K :=
  let d := if d.attached && d.local'.isNone then d.publishRoute published else d
  if d.attached && d.peers.isEmpty && d.target.isSome then
    match fetched with
    | some route =>
      let d := d.addPeer route true
      match d.local' with
      | some (_, blob) => d.sendTo sent route (tagHello :: blob)
      | none => d
    | none => d
  else d

def step (d : Driver R K) : Event R K → Driver R K
  | .attachment ready published =>
    if !d.attached && ready then { d with attached := true }.publishRoute published else d
  | .message msg route sent => d.message msg route sent
  | .routeChange deadRoutes deadRemoteRoutes published sent =>
    d.routeChange deadRoutes deadRemoteRoutes published sent
  | .dial new sent => d.dial new sent
  | .pump frames sent => d.pump frames sent
  | .retry published fetched sent => d.retry published fetched sent

/-! ## What the peers have been told -/

/-- A hello or a hello-ack with a blob was sent to a route since the blob was published. -/
def Told (d : Driver R K) (route : R) (blob : Bytes) : Prop :=
  .sent route (tagHello :: blob) ∈ d.notes ∨ .sent route (tagHelloAck :: blob) ∈ d.notes

/-- Every peer has been told our current route. -/
def Informed (d : Driver R K) : Prop := ∀ own, d.local' = some own → ∀ p ∈ d.peers, d.Told p.route own.2

/-- The routes of which nothing is said: one that was listed when the blob was published
without a refresh, one that a hello-ack has brought since, and one whose hello could not be
answered. -/
def Excepted (d : Driver R K) (route : R) : Prop :=
  .listed route ∈ d.notes ∨ .brought route ∈ d.notes ∨ .unanswered route ∈ d.notes

/-- The routes in the list of peers. -/
def routes (d : Driver R K) : List R := d.peers.map Peer.route

structure Sound (d : Driver R K) : Prop where
  once : d.routes.Nodup
  told : ∀ own, d.local' = some own → ∀ r ∈ d.routes, d.Told r own.2 ∨ d.Excepted r

variable {d d' : Driver R K}

omit [DecidableEq R] in
theorem sound_start : ({} : Driver R K).Sound := ⟨List.nodup_nil, nofun⟩

omit [DecidableEq R] in
theorem told_mono (notes : d.notes ⊆ d'.notes) {r : R} {blob : Bytes} (told : d.Told r blob ∨ d.Excepted r) :
    d'.Told r blob ∨ d'.Excepted r :=
  told.imp (Or.imp (@notes _) (@notes _)) (Or.imp (@notes _) (Or.imp (@notes _) (@notes _)))

omit [DecidableEq R] in
/-- With fewer routes, and more noted, the driver is as sound. -/
theorem Sound.mono (sound : d.Sound) (own : d'.local' = d.local') (routes : d'.routes.Sublist d.routes)
    (notes : d.notes ⊆ d'.notes) : d'.Sound where
  once := sound.once.sublist routes
  told own' here r listed := told_mono notes (sound.told own' (own ▸ here) r (routes.subset listed))

omit [DecidableEq R] in
/-- What is published is an exception with every peer. -/
theorem Sound.publishRoute (sound : d.Sound) (published : Option (R × Bytes)) : (d.publishRoute published).Sound where
  once := sound.once
  told _ _ r listed := by
    obtain ⟨p, member, rfl⟩ := List.mem_map.1 listed
    exact .inr (.inl (List.mem_map.2 ⟨p, member, rfl⟩))

theorem routes_addPeer (d : Driver R K) (route : R) (dialed : Bool) :
    (d.addPeer route dialed).routes = if route ∈ d.routes then d.routes else d.routes ++ [route] := by
  have known : (d.peers.any fun p => p.route = route) = true ↔ route ∈ d.routes := by simp [routes]
  by_cases listed : route ∈ d.routes
  · rw [if_pos listed, addPeer, if_pos (known.2 listed)]
    refine (List.map_map ..).trans (List.map_congr_left fun p _ => ?_)
    simp only [Function.comp_apply]
    split <;> rfl
  · rw [if_neg listed, addPeer, if_neg (mt known.1 listed)]
    exact List.map_append ..

theorem local_addPeer (d : Driver R K) (route : R) (dialed : Bool) :
    (d.addPeer route dialed).local' = d.local' ∧ (d.addPeer route dialed).notes = d.notes := by
  simp only [addPeer]
  split <;> exact ⟨rfl, rfl⟩

/-- A route is added, and told or excepted unless it goes again. -/
theorem Sound.addPeer (sound : d.Sound) (route : R) (dialed : Bool) (own : d'.local' = d.local')
    (routes : d'.routes.Sublist (d.addPeer route dialed).routes) (notes : d.notes ⊆ d'.notes)
    (told : ∀ own, d'.local' = some own → route ∈ d'.routes → d'.Told route own.2 ∨ d'.Excepted route) : d'.Sound := by
  rw [routes_addPeer] at routes
  refine ⟨?_, fun own' here r listed => ?_⟩
  · split at routes
    · exact sound.once.sublist routes
    · next new => exact (sound.once.append (List.nodup_singleton _) (List.disjoint_singleton.2 new)).sublist routes
  · by_cases same : r = route
    · subst same
      exact told own' here listed
    · have old : r ∈ d.routes := by
        have there := routes.subset listed
        split at there
        · exact there
        · simpa [same] using there
      exact told_mono notes (sound.told own' (own ▸ here) r old)

/-! ### Sends -/

theorem sendTo_spec (d : Driver R K) (sent : Bool) (route : R) (msg : Bytes) :
    (d.sendTo sent route msg).local' = d.local' ∧ (d.sendTo sent route msg).routes.Sublist d.routes ∧
      d.notes ⊆ (d.sendTo sent route msg).notes ∧
      (route ∈ (d.sendTo sent route msg).routes → .sent route msg ∈ (d.sendTo sent route msg).notes) := by
  cases sent with
  | true => exact ⟨rfl, List.Sublist.refl _, List.subset_append_left .., fun _ => by simp [sendTo, note]⟩
  | false =>
    refine ⟨rfl, List.filter_sublist.map _, List.Subset.refl _, fun listed => ?_⟩
    obtain ⟨p, kept, rfl⟩ := List.mem_map.1 listed
    have other : p.route ≠ p.route := by simpa using (List.mem_filter.1 kept).2
    exact absurd rfl other

/-- A route that is still there after a message was sent to it has been sent it. -/
theorem sendAll_spec (sent : R → Bool) (msg : Bytes) : ∀ (rs : List R) (d : Driver R K),
    (d.sendAll sent msg rs).local' = d.local' ∧ (d.sendAll sent msg rs).routes.Sublist d.routes ∧
      d.notes ⊆ (d.sendAll sent msg rs).notes ∧
      ∀ r ∈ rs, r ∈ (d.sendAll sent msg rs).routes → .sent r msg ∈ (d.sendAll sent msg rs).notes
  | [], d => ⟨rfl, List.Sublist.refl _, List.Subset.refl _, nofun⟩
  | r :: rs, d => by
    obtain ⟨own, fewer, more, told⟩ := sendTo_spec d (sent r) r msg
    obtain ⟨own', fewer', more', told'⟩ := sendAll_spec sent msg rs (d.sendTo (sent r) r msg)
    refine ⟨own'.trans own, fewer'.trans fewer, List.Subset.trans more more', fun r' member listed => ?_⟩
    rcases List.mem_cons.1 member with rfl | later
    · exact more' (told (fewer'.subset listed))
    · exact told' r' later listed

theorem Sound.sendAll (sound : d.Sound) (sent : R → Bool) (msg : Bytes) (rs : List R) : (d.sendAll sent msg rs).Sound := by
  obtain ⟨own, fewer, more, -⟩ := sendAll_spec sent msg rs d
  exact sound.mono own fewer more

/-! ### One event -/

theorem Sound.hello (sound : d.Sound) (ack : Bool) (route : R) (sent : Bool) : (d.hello ack route sent).Sound := by
  obtain ⟨own, notes⟩ := local_addPeer d route false
  cases ack with
  | false =>
    refine sound.addPeer route false own (List.Sublist.refl _) ?_ fun _ _ _ => ?_
    · exact notes ▸ List.subset_append_left ..
    · exact .inr (.inr (.inl (by simp [Driver.hello, note])))
  | true =>
    cases current : (d.addPeer route false).local' with
    | none =>
      have same : d.hello true route sent = d.addPeer route false := by simp [Driver.hello, current]
      rw [same]
      refine sound.addPeer route false own (List.Sublist.refl _) ?_ fun _ here => ?_
      · exact notes ▸ List.Subset.refl _
      · rw [current] at here
        cases here
    | some here =>
      have same : d.hello true route sent = (d.addPeer route false).note
          (if sent then .sent route (tagHelloAck :: here.2) else .unanswered route) := by
        simp [Driver.hello, current]
      rw [same]
      refine sound.addPeer route false own (List.Sublist.refl _) ?_ fun own' here' _ => ?_
      · exact notes ▸ List.subset_append_left ..
      · obtain rfl : own' = here := Option.some.inj (here'.symm.trans current)
        cases sent with
        | true => exact .inl (.inr (by simp [note]))
        | false => exact .inr (.inr (.inr (by simp [note])))

theorem Sound.message (sound : d.Sound) (msg : Bytes) (route : Option R) (sent : Bool) :
    (d.message msg route sent).Sound := by
  simp only [Driver.message]
  split
  · exact sound
  · split
    · exact ⟨sound.once, sound.told⟩
    · split
      · split
        · exact sound.hello _ _ sent
        · exact sound
      · split
        · split
          · exact sound.mono rfl (List.filter_sublist.map _) (List.Subset.refl _)
          · exact sound
        · exact sound

theorem Sound.routeChange (sound : d.Sound) (deadRoutes deadRemoteRoutes : List R) (published : Option (R × Bytes))
    (sent : R → Bool) : (d.routeChange deadRoutes deadRemoteRoutes published sent).Sound := by
  have lived : ({ d with peers := d.peers.filter fun p => p.route ∉ deadRemoteRoutes } : Driver R K).Sound :=
    sound.mono rfl (List.filter_sublist.map _) (List.Subset.refl _)
  simp only [Driver.routeChange]
  generalize ({ d with peers := d.peers.filter fun p => p.route ∉ deadRemoteRoutes } : Driver R K) = d at lived
  split
  · cases published with
    | none => exact lived.publishRoute none
    | some own =>
      obtain ⟨own', fewer, -, told⟩ := sendAll_spec sent (tagHelloAck :: own.2) d.routes
        ({ d.publishRoute (some own) with notes := [] } : Driver R K)
      refine ⟨lived.once.sublist fewer, fun here current r listed => ?_⟩
      obtain rfl : here = own := Option.some.inj (current.symm.trans own')
      exact .inl (.inr (told r (fewer.subset listed) listed))
  · exact lived

omit [DecidableEq R] in
theorem Sound.dial (sound : d.Sound) (new : Option K) (sent : R → Bool) : (d.dial new sent).Sound := by
  cases new with
  | some key => exact ⟨sound.once, sound.told⟩
  | none =>
    simp only [Driver.dial, Option.isNone_none, if_true]
    split
    · exact sound.mono rfl (List.filter_sublist.map _) (List.subset_append_left ..)
    · exact sound.mono rfl (List.filter_sublist.map _) (List.Subset.refl _)

theorem Sound.pump (sound : d.Sound) (frames : List Frame) (sent : Frame → R → Bool) : (d.pump frames sent).Sound := by
  simp only [Driver.pump]
  generalize d.peers.map Peer.route = routes
  induction frames generalizing d with
  | nil => exact sound
  | cons frame frames ih => exact ih (sound.sendAll (sent frame) _ routes)

theorem Sound.retry (sound : d.Sound) (published : Option (R × Bytes)) (fetched : Option R) (sent : Bool) :
    (d.retry published fetched sent).Sound := by
  have own : (if d.attached && d.local'.isNone then d.publishRoute published else d).Sound := by
    split
    · exact sound.publishRoute published
    · exact sound
  simp only [Driver.retry]
  generalize (if d.attached && d.local'.isNone then d.publishRoute published else d) = d at own
  split
  · split
    · next route =>
        obtain ⟨same, notes⟩ := local_addPeer d route true
        split
        · next id blob here =>
            obtain ⟨same', fewer, more, told⟩ := sendTo_spec (d.addPeer route true) sent route (tagHello :: blob)
            refine own.addPeer route true (same'.trans same) fewer (notes ▸ more) fun own' here' listed => ?_
            obtain rfl : own' = (id, blob) := Option.some.inj (here'.symm.trans (same'.trans here))
            exact .inl (.inl (told listed))
        · next none' =>
            refine own.addPeer route true same (List.Sublist.refl _) (notes ▸ List.Subset.refl _) fun _ here => ?_
            rw [none'] at here
            cases here
    · exact own
  · exact own

theorem Sound.step (sound : d.Sound) (e : Event R K) : (d.step e).Sound := by
  cases e with
  | attachment ready published =>
    simp only [Driver.step]
    split
    · exact Sound.publishRoute (d := { d with attached := true }) ⟨sound.once, sound.told⟩ published
    · exact sound
  | message msg route sent => exact sound.message msg route sent
  | routeChange deadRoutes deadRemoteRoutes published sent =>
    exact sound.routeChange deadRoutes deadRemoteRoutes published sent
  | dial new sent => exact sound.dial new sent
  | pump frames sent => exact sound.pump frames sent
  | retry published fetched sent => exact sound.retry published fetched sent

theorem Sound.run (sound : d.Sound) (events : List (Event R K)) : (events.foldl Driver.step d).Sound := by
  induction events generalizing d with
  | nil => exact sound
  | cons e events ih => exact ih (sound.step e)

omit [DecidableEq R] in
/-- After an undial no route that this side dialed is left. -/
theorem dialed_undial (d : Driver R K) (sent : R → Bool) : ∀ p ∈ (d.dial none sent).peers, p.dialed = false := by
  intro p listed
  simp only [dial, Option.isNone_none, if_true] at listed
  split at listed <;> simpa using (List.mem_filter.1 listed).2

end Driver

open Driver in
/-- In every run: no route is listed twice, an undial leaves none that this side dialed, and
while we have a route, every peer's has been sent a hello or a hello-ack with its blob since
it was published, unless it was listed when the blob was published without a refresh, or a
hello-ack has brought it since, or a hello that could not be answered. -/
theorem peers_hold_route {R K : Type} [DecidableEq R] (events : List (Event R K)) :
    let d := events.foldl Driver.step ({} : Driver R K)
    (d.peers.map Peer.route).Nodup ∧ (∀ sent, ∀ p ∈ (d.step (.dial none sent)).peers, p.dialed = false) ∧
      ∀ own, d.local' = some own → ∀ p ∈ d.peers, d.Told p.route own.2 ∨ d.Excepted p.route := by
  intro d
  have sound : d.Sound := sound_start.run events
  exact ⟨sound.once, dialed_undial d, fun own here p listed => sound.told own here _ (List.mem_map_of_mem listed)⟩

/-! ## Poles -/

section Poles

open Driver

/-- A route that a hello-ack brings is sent nothing; one that said hello before we had a
route is not told of ours when it is published; and one that could not be answered stays. -/
theorem peers_unheard :
    ¬ ([.attachment true (some (0, [9])), .message [tagHelloAck, 7] (some 1) true].foldl step
        ({} : Driver Nat Nat)).Informed ∧
      ¬ ([.message [tagHello, 7] (some 1) true, .attachment true (some (0, [9]))].foldl step
        ({} : Driver Nat Nat)).Informed ∧
      ¬ ([.attachment true (some (0, [9])), .message [tagHello, 7] (some 1) false].foldl step
        ({} : Driver Nat Nat)).Informed := by
  refine ⟨fun informed => ?_, fun informed => ?_, fun informed => ?_⟩ <;>
    · have told := informed (0, [9]) rfl { route := 1, dialed := false } (by decide)
      revert told
      simp only [Told]
      decide

end Poles

end Wk.Fabric.Veilid
