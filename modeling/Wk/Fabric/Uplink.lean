/-
# Wk.Fabric.Uplink -- two uplinks, and what crosses between them

An uplink sends every frame its trunk gives it as a datagram on every live connection it
has, and puts every datagram it reads into its own trunk.  That a frame crosses once rests
on how connections come about: a dialer opens one only while it sees none alive, but each
side has a dialer, and they do not see each other's attempts.

The connections are QUIC's: a side learns of a connection's end in its own time, a datagram
may be lost and is never duplicated, and one that reached a side may be read after the
connection has closed there.  A frame is known by its number among those its side has
drained; a datagram over a connection's size budget counts as lost.
-/
import Wk.Library.Run

namespace Wk.Fabric.Uplink

open Wk.Library

set_option autoImplicit false

/-- The two uplinks. -/
inductive Side where
  | a | b
  deriving DecidableEq, Repr

def Side.other : Side → Side
  | .a => .b
  | .b => .a

@[simp] theorem Side.other_other (x : Side) : x.other.other = x := by cases x <;> rfl

theorem Side.other_ne (x : Side) : x.other ≠ x := by cases x <;> decide

theorem Side.eq_or_other (x y : Side) : y = x ∨ y = x.other := by cases x <;> cases y <;> decide

/-- A connection, known by its place among all that were ever opened. -/
abbrev ConnId := Nat

/-- A connection as a side keeps it, tagged with whether that side opened it. -/
structure Conn where
  conn : ConnId
  dialed : Bool
  deriving DecidableEq, Repr

structure Datagram where
  origin : Side
  conn : ConnId
  /-- The number of the frame among those its origin has drained. -/
  frame : Nat
  deriving DecidableEq, Repr

/-- One side's uplink. -/
structure End where
  conns : List Conn := []
  /-- The connections with a task that reads their datagrams. -/
  readers : List ConnId := []
  /-- The connections with a close reason on this side. -/
  closed : List ConnId := []
  /-- The messages to the dialer: the other side's ticket, or none. -/
  rx : List Bool := []
  /-- Whether the dialer has a target. -/
  target : Bool := false
  /-- The connection the dialer is waiting for. -/
  dialing : Option ConnId := none
  /-- How many frames were drained from the trunk. -/
  drained : Nat := 0
  /-- Datagrams that have arrived and are not read yet. -/
  received : List Datagram := []
  /-- What was put into the trunk. -/
  injected : List Datagram := []
  deriving DecidableEq, Repr

namespace End

/-- `close_reason().is_none()`. -/
def live (u : End) (k : ConnId) : Bool := k ∉ u.closed

/-- The connections a frame is sent on. -/
def liveConns (u : End) : List Conn := u.conns.filter fun c => u.live c.conn

/-- Whether the dialer sees a live connection. -/
def connected (u : End) : Bool := u.conns.any fun c => u.live c.conn

/-- The datagrams of the next `n` frames: every frame on every live connection. -/
def sends (u : End) (x : Side) (n : Nat) : List Datagram :=
  (List.range' u.drained n).flatMap fun frame => u.liveConns.map fun c => { origin := x, conn := c.conn, frame }

def register (u : End) (k : ConnId) (dialed : Bool) : End :=
  { u with conns := u.liveConns ++ [{ conn := k, dialed }], readers := u.readers ++ [k] }

/-- The dialer's target is set or cleared; clearing it hangs up on the peer it dialed. -/
def setTarget (u : End) (new : Bool) : End :=
  if new then { u with target := true }
  else
    { u with
      target := false
      closed := u.closed ++ (u.conns.filter (·.dialed)).map Conn.conn
      conns := u.conns.filter fun c => !c.dialed }

end End

structure Tunnel where
  uplink : Side → End := fun _ => {}
  /-- Who opened each connection. -/
  opener : List Side := []
  /-- The datagrams on the way. -/
  flying : List Datagram := []

inductive Event where
  /-- `Uplink::dial` with the other side's ticket, or an empty one. -/
  | dial (x : Side) (ticket : Bool)
  /-- The dialer takes its next message. -/
  | recv (x : Side)
  /-- The dialer's retry tick. -/
  | tick (x : Side)
  /-- The dialer's `connect` returns. -/
  | connect (x : Side) (ok : Bool)
  /-- The accept loop has a connection. -/
  | accept (x : Side) (k : ConnId)
  /-- A connection gets a close reason on one side. -/
  | lost (x : Side) (k : ConnId)
  /-- The pump drains frames from the trunk. -/
  | drain (x : Side) (n : Nat)
  /-- A datagram arrives. -/
  | arrive (i : Nat)
  | lose (i : Nat)
  /-- A datagram is read into the trunk. -/
  | read (x : Side) (i : Nat)
  deriving DecidableEq, Repr

namespace Tunnel

def put (t : Tunnel) (x : Side) (u : End) : Tunnel := { t with uplink := Function.update t.uplink x u }

/-- The end of a dialer's turn: it dials when there is a target and no live connection. -/
def dialTurn (t : Tunnel) (x : Side) : Tunnel :=
  let u := t.uplink x
  if u.target && !u.connected then
    { t.put x { u with dialing := some t.opener.length } with opener := t.opener ++ [x] }
  else t

def pump (t : Tunnel) (x : Side) (n : Nat) : Tunnel :=
  let u := t.uplink x
  { t.put x { u with drained := u.drained + n } with flying := t.flying ++ u.sends x n }

def step (t : Tunnel) : Event → Tunnel
  | .dial x ticket => t.put x { t.uplink x with rx := (t.uplink x).rx ++ [ticket] }
  | .recv x =>
    match (t.uplink x).dialing, (t.uplink x).rx with
    | none, new :: rx => (t.put x ({ t.uplink x with rx }.setTarget new)).dialTurn x
    | _, _ => t
  | .tick x => if (t.uplink x).dialing = none then t.dialTurn x else t
  | .connect x ok =>
    match (t.uplink x).dialing with
    | none => t
    | some k =>
      let u := { t.uplink x with dialing := none }
      t.put x (if ok then u.register k true else { u with closed := u.closed ++ [k] })
  | .accept x k =>
    let u := t.uplink x
    if t.opener[k]? = some x.other ∧ k ∉ u.readers ∧ k ∉ u.closed then t.put x (u.register k false) else t
  | .lost x k =>
    if k < t.opener.length then t.put x { t.uplink x with closed := (t.uplink x).closed ++ [k] } else t
  | .drain x n => t.pump x n
  | .arrive i =>
    match t.flying[i]? with
    | none => t
    | some d =>
      let y := d.origin.other
      if (t.uplink y).live d.conn then
        { t.put y { t.uplink y with received := (t.uplink y).received ++ [d] } with flying := t.flying.eraseIdx i }
      else t
  | .lose i => { t with flying := t.flying.eraseIdx i }
  | .read x i =>
    match (t.uplink x).received[i]? with
    | none => t
    | some d =>
      let u := t.uplink x
      if d.conn ∈ u.readers then
        t.put x { u with received := u.received.eraseIdx i, injected := u.injected ++ [d] }
      else t

/-- Every frame drained on one side was put into the other's trunk at most once. -/
def AtMostOnce (t : Tunnel) : Prop := ∀ x, ((t.uplink x).injected.map fun d => (d.origin, d.frame)).Nodup

/-- No frame is drained on a side that has a live connection of its own opening and one of
the other's, both still open over there. -/
def Uncrossed (t : Tunnel) : Event → Prop
  | .drain x n => n = 0 ∨ ∀ c ∈ (t.uplink x).liveConns, ∀ c' ∈ (t.uplink x).liveConns,
      c.dialed = true → c'.dialed = false →
        ¬ ((t.uplink x.other).live c.conn = true ∧ (t.uplink x.other).live c'.conn = true)
  | _ => True

instance (t : Tunnel) : (e : Event) → Decidable (t.Uncrossed e)
  | .drain _ _ => inferInstanceAs (Decidable (_ ∨ _))
  | .dial _ _ | .recv _ | .tick _ | .connect _ _ | .accept _ _ | .lost _ _ | .arrive _ | .lose _ | .read _ _ =>
    .isTrue trivial

end Tunnel

/-! ## How many connections a side has alive -/

/-- The connections of side `x`: what it opened and is alive there is one connection, still
being dialed or among the `dialed`. -/
structure Held (opener : List Side) (x : Side) (u : End) : Prop where
  dialing : ∀ k, u.dialing = some k → opener[k]? = some x ∧ k ∉ u.readers
  own : ∀ k, opener[k]? = some x → u.live k = true → u.dialing = some k ∨ { conn := k, dialed := true } ∈ u.conns
  single : ∀ k k', opener[k]? = some x → opener[k']? = some x → u.live k = true → u.live k' = true → k = k'
  tag : ∀ c ∈ u.conns, opener[c.conn]? = some (if c.dialed then x else x.other)
  once : (u.conns.map Conn.conn).Nodup
  readers : ∀ c ∈ u.conns, c.conn ∈ u.readers
  known : ∀ k ∈ u.readers, k < opener.length

namespace Held

variable {opener : List Side} {x : Side} {u : End}

theorem fresh (x : Side) : Held [] x {} where
  dialing _ := nofun
  own _ := nofun
  single _ _ := nofun
  tag _ := nofun
  once := List.nodup_nil
  readers _ := nofun
  known _ := nofun

theorem opener_append {k : ConnId} {y : Side} (here : opener[k]? = some y) (z : Side) : (opener ++ [z])[k]? = some y := by
  rw [List.getElem?_append_left (List.getElem?_eq_some_iff.1 here).1]
  exact here

/-- A connection of side `x` among the old ones and one new one. -/
theorem of_append {k : ConnId} {y z : Side} (here : (opener ++ [z])[k]? = some y) :
    opener[k]? = some y ∨ k = opener.length ∧ y = z := by
  rw [List.getElem?_append] at here
  split at here
  · exact .inl here
  · next past =>
      obtain ⟨last, same⟩ := List.getElem?_eq_some_iff.1 here
      have last' : k - opener.length = 0 := by simpa using last
      refine .inr ⟨Nat.le_antisymm (Nat.sub_eq_zero_iff_le.1 last') (Nat.le_of_not_lt past), ?_⟩
      simpa [last'] using same.symm

/-- The other side opens a connection. -/
theorem grow (held : Held opener x u) : Held (opener ++ [x.other]) x u where
  dialing k dialing := ⟨opener_append (held.dialing k dialing).1 _, (held.dialing k dialing).2⟩
  own k mine live := by
    rcases of_append mine with old | ⟨-, same⟩
    · exact held.own k old live
    · exact absurd same.symm x.other_ne
  single k k' mine mine' live live' := by
    rcases of_append mine with old | ⟨-, same⟩
    · rcases of_append mine' with old' | ⟨-, same⟩
      · exact held.single k k' old old' live live'
      · exact absurd same.symm x.other_ne
    · exact absurd same.symm x.other_ne
  tag c member := opener_append (held.tag c member) _
  once := held.once
  readers := held.readers
  known k reads := lt_of_lt_of_le (held.known k reads) (by simp)

theorem live_close {k : ConnId} {ks : List ConnId} (live : ({ u with closed := u.closed ++ ks } : End).live k = true) :
    u.live k = true ∧ k ∉ ks := by
  simpa [End.live] using live

/-- Connections close on this side. -/
theorem close (held : Held opener x u) (ks : List ConnId) : Held opener x { u with closed := u.closed ++ ks } where
  dialing := held.dialing
  own k mine live := held.own k mine (live_close live).1
  single k k' mine mine' live live' := held.single k k' mine mine' (live_close live).1 (live_close live').1
  tag := held.tag
  once := held.once
  readers := held.readers
  known := held.known

/-- The dialer gives up the connection it waits for. -/
theorem giveUp (held : Held opener x u) {k : ConnId} (waits : u.dialing = some k) :
    Held opener x { u with dialing := none, closed := u.closed ++ [k] } where
  dialing _ := nofun
  own k' mine live := by
    obtain ⟨live, other⟩ := live_close (u := u) live
    refine (held.own k' mine live).imp_left fun dialing => ?_
    rw [waits] at dialing
    exact absurd (Option.some.inj dialing).symm (by simpa using other)
  single k k' mine mine' live live' :=
    held.single k k' mine mine' (live_close (u := u) live).1 (live_close (u := u) live').1
  tag := held.tag
  once := held.once
  readers := held.readers
  known := held.known

/-- A connection is registered, one the dialer waited for or one that was accepted; what is
closed is forgotten. -/
theorem register (held : Held opener x u) {k : ConnId} (dialed : Bool) {waits : Option ConnId}
    (opened : opener[k]? = some (if dialed then x else x.other)) (new : k ∉ u.readers)
    (waited : waits = u.dialing ∧ dialed = false ∨ waits = none ∧ u.dialing = some k ∧ dialed = true) :
    Held opener x ({ u with dialing := waits }.register k dialed) where
  dialing k' dialing := by
    rcases waited with ⟨rfl, rfl⟩ | ⟨rfl, -⟩
    · refine ⟨(held.dialing k' dialing).1, fun reads => ?_⟩
      rcases List.mem_append.1 reads with old | here
      · exact (held.dialing k' dialing).2 old
      · have mine := (held.dialing k' dialing).1
        rw [List.mem_singleton.1 here, opened] at mine
        exact x.other_ne (Option.some.inj mine)
    · cases dialing
  own k' mine live := by
    rcases held.own k' mine live with dialing | member
    · rcases waited with ⟨rfl, -⟩ | ⟨-, waits, rfl⟩
      · exact .inl dialing
      · cases waits.symm.trans dialing
        exact .inr (List.mem_append_right _ (List.mem_singleton.2 rfl))
    · exact .inr (List.mem_append_left _ (List.mem_filter.2 ⟨member, live⟩))
  single := held.single
  tag c member := by
    rcases List.mem_append.1 member with old | here
    · exact held.tag c (List.mem_filter.1 old).1
    · rw [List.mem_singleton.1 here]
      exact opened
  once := by
    rw [End.register, List.map_append, List.nodup_append]
    refine ⟨held.once.sublist (List.filter_sublist.map _), List.nodup_singleton _, fun k' old k'' here same => ?_⟩
    obtain ⟨c, member, rfl⟩ := List.mem_map.1 old
    have same' : c.conn = k := same.trans (by simpa using here)
    exact new (same' ▸ held.readers c (List.mem_filter.1 member).1)
  readers c member := by
    rcases List.mem_append.1 member with old | here
    · exact List.mem_append_left _ (held.readers c (List.mem_filter.1 old).1)
    · rw [List.mem_singleton.1 here]
      exact List.mem_append_right _ (List.mem_singleton.2 rfl)
  known k' reads := by
    rcases List.mem_append.1 reads with old | here
    · exact held.known k' old
    · rw [List.mem_singleton.1 here]
      exact (List.getElem?_eq_some_iff.1 opened).1

/-- The dialer's target changes. -/
theorem setTarget (held : Held opener x u) (new : Bool) : Held opener x (u.setTarget new) := by
  unfold End.setTarget
  split
  · exact ⟨held.dialing, held.own, held.single, held.tag, held.once, held.readers, held.known⟩
  · have closed := held.close ((u.conns.filter (·.dialed)).map Conn.conn)
    refine ⟨closed.dialing, fun k mine live => ?_, closed.single, fun c member => ?_, ?_, fun c member => ?_,
      held.known⟩
    · refine (held.own k mine (live_close live).1).imp_right fun member => ?_
      refine absurd (List.mem_map.2 ⟨_, List.mem_filter.2 ⟨member, rfl⟩, rfl⟩) (live_close live).2
    · exact held.tag c (List.mem_filter.1 member).1
    · exact held.once.sublist (List.filter_sublist.map _)
    · exact held.readers c (List.mem_filter.1 member).1

/-- A side that sees no live connection and waits for none opened none that is alive. -/
theorem not_alive (held : Held opener x u) (waits : u.dialing = none) (seen : u.connected = false) {k : ConnId}
    (mine : opener[k]? = some x) : ¬ u.live k = true := by
  intro live
  rcases held.own k mine live with dialing | member
  · cases waits.symm.trans dialing
  · exact List.any_eq_false.1 seen _ member live

/-- The dialer opens a connection. -/
theorem open' (held : Held opener x u) (waits : u.dialing = none) (seen : u.connected = false) :
    Held (opener ++ [x]) x { u with dialing := some opener.length } where
  dialing k dialing := by
    cases dialing
    exact ⟨by simp, fun reads => absurd (held.known _ reads) (Nat.lt_irrefl _)⟩
  own k mine live := by
    rcases of_append mine with old | ⟨rfl, -⟩
    · exact absurd live (held.not_alive waits seen old)
    · exact .inl rfl
  single k k' mine mine' live live' := by
    rcases of_append mine with old | ⟨rfl, -⟩
    · exact absurd live (held.not_alive waits seen old)
    · rcases of_append mine' with old' | ⟨rfl, -⟩
      · exact absurd live' (held.not_alive waits seen old')
      · rfl
  tag c member := opener_append (held.tag c member) _
  once := held.once
  readers := held.readers
  known k reads := lt_of_lt_of_le (held.known k reads) (by simp)

end Held
/-! ## How often a frame is on its way -/

namespace Tunnel

variable {t : Tunnel} {x y : Side}

@[simp] theorem uplink_put_self (t : Tunnel) (x : Side) (u : End) : (t.put x u).uplink x = u :=
  Function.update_self ..

theorem uplink_put_of_ne (t : Tunnel) {x y : Side} (u : End) (other : y ≠ x) : (t.put x u).uplink y = t.uplink y :=
  Function.update_of_ne other ..

/-- The datagrams to side `y` that may still arrive there. -/
def pending (t : Tunnel) (y : Side) : List Datagram :=
  t.flying.filter fun d => d.origin = y.other && (t.uplink y).live d.conn

/-- The datagrams that have arrived at side `y`, or may. -/
def around (t : Tunnel) (y : Side) : List Datagram :=
  (t.uplink y).injected ++ (t.uplink y).received ++ t.pending y

/-- Every frame is around once at most. -/
structure Crossing (t : Tunnel) (y : Side) : Prop where
  origin : ∀ d ∈ t.around y, d.origin = y.other
  numbered : ∀ d ∈ t.around y, d.frame < (t.uplink y.other).drained
  once : ((t.around y).map Datagram.frame).Nodup

theorem Crossing.of_sublist {t' : Tunnel} (crossing : t.Crossing y) (fewer : (t'.around y).Sublist (t.around y))
    (drained : (t.uplink y.other).drained ≤ (t'.uplink y.other).drained) : t'.Crossing y where
  origin d member := crossing.origin d (fewer.subset member)
  numbered d member := (crossing.numbered d (fewer.subset member)).trans_le drained
  once := crossing.once.sublist (fewer.map _)

theorem Crossing.of_perm {t' : Tunnel} (crossing : t.Crossing y) (same : (t'.around y).Perm (t.around y))
    (drained : (t.uplink y.other).drained ≤ (t'.uplink y.other).drained) : t'.Crossing y where
  origin d member := crossing.origin d (same.mem_iff.1 member)
  numbered d member := (crossing.numbered d (same.mem_iff.1 member)).trans_le drained
  once := (same.map _).nodup_iff.2 crossing.once

/-- One side changes, and not what has arrived there or was drained; connections may close. -/
theorem Crossing.put (crossing : t.Crossing y) {t' : Tunnel} {u : End} (uplink : t'.uplink = (t.put x u).uplink)
    (flying : t'.flying = t.flying) (received : u.received = (t.uplink x).received)
    (injected : u.injected = (t.uplink x).injected) (drained : u.drained = (t.uplink x).drained)
    (closes : ∀ k, u.live k = true → (t.uplink x).live k = true) : t'.Crossing y := by
  have drained' : (t'.uplink y.other).drained = (t.uplink y.other).drained := by
    rw [uplink]
    by_cases here : y.other = x
    · rw [here, uplink_put_self, drained]
    · rw [uplink_put_of_ne _ _ here]
  refine crossing.of_sublist ?_ drained'.ge
  rw [around, around, pending, pending, uplink, flying]
  by_cases here : y = x
  · subst here
    rw [uplink_put_self, received, injected]
    refine List.Sublist.append_left (List.monotone_filter_right _ fun d kept => ?_) _
    simp only [Bool.and_eq_true] at kept ⊢
    exact ⟨kept.1, closes _ kept.2⟩
  · rw [uplink_put_of_ne _ _ here]

/-- A datagram leaves the way. -/
theorem Crossing.lose (crossing : t.Crossing y) (i : Nat) : ({ t with flying := t.flying.eraseIdx i } : Tunnel).Crossing y :=
  crossing.of_sublist (((List.eraseIdx_sublist _ i).filter _).append_left _) le_rfl

/-- The invariant. -/
structure Good (t : Tunnel) : Prop where
  held : ∀ x, Held t.opener x (t.uplink x)
  crossing : ∀ y, t.Crossing y

theorem good_fresh : Good {} where
  held := Held.fresh
  crossing _ := ⟨nofun, nofun, List.nodup_nil⟩

theorem Good.atMostOnce (good : t.Good) : t.AtMostOnce := by
  intro y
  refine List.Nodup.of_map Prod.snd ?_
  rw [List.map_map]
  exact (good.crossing y).once.sublist
    (((List.sublist_append_left _ _).trans (List.sublist_append_left _ _)).map _)

/-- One side changes, and not what has arrived there or was drained. -/
theorem Good.put (good : t.Good) {u : End} (held : Held t.opener x u) (received : u.received = (t.uplink x).received)
    (injected : u.injected = (t.uplink x).injected) (drained : u.drained = (t.uplink x).drained)
    (closes : ∀ k, u.live k = true → (t.uplink x).live k = true) : (t.put x u).Good where
  held y := by
    by_cases here : y = x
    · subst here
      rw [uplink_put_self]
      exact held
    · rw [uplink_put_of_ne _ _ here]
      exact good.held y
  crossing y := (good.crossing y).put rfl rfl received injected drained closes

theorem Good.dialTurn (good : t.Good) (waits : (t.uplink x).dialing = none) : (t.dialTurn x).Good := by
  unfold Tunnel.dialTurn
  dsimp only
  split
  · next dials =>
      simp only [Bool.and_eq_true, Bool.not_eq_true'] at dials
      refine ⟨fun y => ?_, fun y => (good.crossing y).put rfl rfl rfl rfl rfl fun _ live => live⟩
      rcases x.eq_or_other y with rfl | rfl
      · change Held _ y ((t.put y _).uplink y)
        rw [uplink_put_self]
        exact (good.held y).open' waits dials.2
      · change Held _ x.other ((t.put x _).uplink x.other)
        rw [uplink_put_of_ne _ _ x.other_ne]
        simpa using (good.held x.other).grow
  · exact good

/-- Among the live connections of a side that drains uncrossed, one at most is open on the
other side. -/
theorem Good.one_open (good : t.Good)
    (uncrossed : ∀ c ∈ (t.uplink x).liveConns, ∀ c' ∈ (t.uplink x).liveConns, c.dialed = true → c'.dialed = false →
      ¬ ((t.uplink x.other).live c.conn = true ∧ (t.uplink x.other).live c'.conn = true))
    {c c' : Conn} (member : c ∈ (t.uplink x).liveConns) (member' : c' ∈ (t.uplink x).liveConns)
    (there : (t.uplink x.other).live c.conn = true) (there' : (t.uplink x.other).live c'.conn = true) : c = c' := by
  obtain ⟨listed, live⟩ := List.mem_filter.1 member
  obtain ⟨listed', live'⟩ := List.mem_filter.1 member'
  have tag := (good.held x).tag c listed
  have tag' := (good.held x).tag c' listed'
  have same : c.conn = c'.conn := by
    cases dialed : c.dialed <;> cases dialed' : c'.dialed <;> rw [dialed] at tag <;> rw [dialed'] at tag'
    · exact (good.held x.other).single _ _ tag tag' there there'
    · exact absurd ⟨there', there⟩ (uncrossed c' member' c member dialed' dialed)
    · exact absurd ⟨there, there'⟩ (uncrossed c member c' member' dialed dialed')
    · exact (good.held x).single _ _ tag tag' live live'
  exact List.inj_on_of_nodup_map (good.held x).once listed listed' same

/-- The frames of a drain that may arrive: each is on one datagram at most. -/
theorem Good.sends (good : t.Good) {n : Nat} (uncrossed : t.Uncrossed (.drain x n)) :
    ((((t.uplink x).sends x n).filter fun d => (t.uplink x.other).live d.conn).map Datagram.frame).Sublist
      (List.range' (t.uplink x).drained n) := by
  rcases uncrossed with rfl | uncrossed
  · exact .refl _
  · generalize reached : ((t.uplink x).liveConns.filter fun c => (t.uplink x.other).live c.conn) = cs
    have frames : ∀ frame, ((((t.uplink x).liveConns.map fun c => (⟨x, c.conn, frame⟩ : Datagram)).filter fun d =>
        (t.uplink x.other).live d.conn).map Datagram.frame) = cs.map fun _ => frame := by
      intro frame
      rw [List.filter_map, List.map_map, ← reached]
      rfl
    rw [End.sends, List.filter_flatMap, List.map_flatMap, List.flatMap_congr fun frame _ => frames frame]
    match cs, reached with
    | [], _ =>
      have none : ((List.range' (t.uplink x).drained n).flatMap fun frame => ([] : List Conn).map fun _ => frame) = [] :=
        List.flatMap_eq_nil_iff.2 fun _ _ => rfl
      rw [none]
      exact List.nil_sublist _
    | [c], _ => simp
    | c :: c' :: cs, reached =>
      have listed : ∀ d ∈ c :: c' :: cs, d ∈ (t.uplink x).liveConns ∧ (t.uplink x.other).live d.conn = true := by
        rw [← reached]
        exact fun d member => List.mem_filter.1 member
      have nodup : (c :: c' :: cs).Nodup := reached ▸ (((good.held x).once.of_map _).filter _).filter _
      have same : c = c' := by
        obtain ⟨⟨here, there⟩, ⟨here', there'⟩⟩ := And.intro (listed c (by simp)) (listed c' (by simp))
        exact good.one_open uncrossed here here' there there'
      exact absurd nodup (by simp [same])

theorem mem_sends {n : Nat} {u : End} {d : Datagram} (member : d ∈ u.sends x n) :
    d.origin = x ∧ u.drained ≤ d.frame ∧ d.frame < u.drained + n := by
  obtain ⟨frame, counted, member⟩ := List.mem_flatMap.1 member
  obtain ⟨c, -, rfl⟩ := List.mem_map.1 member
  exact ⟨rfl, List.mem_range'_1.1 counted⟩

theorem around_pump_self (t : Tunnel) (x : Side) (n : Nat) : (t.pump x n).around x = t.around x := by
  have none : ((t.uplink x).sends x n).filter (fun d => d.origin = x.other && (t.uplink x).live d.conn) = [] := by
    refine List.filter_eq_nil_iff.2 fun d member => ?_
    simp [(mem_sends member).1, x.other_ne.symm]
  have uplink : (t.pump x n).uplink x = { t.uplink x with drained := (t.uplink x).drained + n } :=
    uplink_put_self ..
  have flying : (t.pump x n).flying = t.flying ++ (t.uplink x).sends x n := rfl
  rw [around, around, pending, pending, flying, List.filter_append, uplink]
  exact congrArg _ ((congrArg _ none).trans (List.append_nil _))

theorem around_pump_other (t : Tunnel) (x : Side) (n : Nat) : (t.pump x n).around x.other =
    t.around x.other ++ ((t.uplink x).sends x n).filter fun d => (t.uplink x.other).live d.conn := by
  have mine : ((t.uplink x).sends x n).filter
      (fun d => d.origin = x.other.other && (t.uplink x.other).live d.conn) =
      ((t.uplink x).sends x n).filter fun d => (t.uplink x.other).live d.conn := by
    refine List.filter_congr fun d member => ?_
    simp [(mem_sends member).1]
  have uplink : (t.pump x n).uplink x.other = t.uplink x.other := uplink_put_of_ne _ _ x.other_ne
  have flying : (t.pump x n).flying = t.flying ++ (t.uplink x).sends x n := rfl
  rw [around, around, pending, pending, flying, List.filter_append, uplink, mine, List.append_assoc, List.append_assoc,
    List.append_assoc]

theorem Good.pump (good : t.Good) {n : Nat} (uncrossed : t.Uncrossed (.drain x n)) : (t.pump x n).Good := by
  have here : (t.pump x n).uplink x = { t.uplink x with drained := (t.uplink x).drained + n } := uplink_put_self ..
  have there : (t.pump x n).uplink x.other = t.uplink x.other := uplink_put_of_ne _ _ x.other_ne
  have opener : (t.pump x n).opener = t.opener := rfl
  constructor
  · intro y
    rw [opener]
    rcases x.eq_or_other y with rfl | rfl
    · have held := good.held y
      rw [here]
      exact ⟨held.dialing, held.own, held.single, held.tag, held.once, held.readers, held.known⟩
    · rw [there]
      exact good.held x.other
  · intro y
    rcases x.eq_or_other y with rfl | rfl
    · refine (good.crossing y).of_sublist ?_ ?_
      · rw [around_pump_self]
      · rw [there]
    · have crossing := good.crossing x.other
      have sends := good.sends uncrossed
      constructor
      · intro d member
        rw [around_pump_other] at member
        rcases List.mem_append.1 member with old | new
        · exact crossing.origin d old
        · rw [(mem_sends (List.mem_filter.1 new).1).1, Side.other_other]
      · intro d member
        rw [around_pump_other] at member
        rw [Side.other_other, here]
        rcases List.mem_append.1 member with old | new
        · have counted := crossing.numbered d old
          rw [Side.other_other] at counted
          exact Nat.lt_add_right n counted
        · exact (mem_sends (List.mem_filter.1 new).1).2.2
      · rw [around_pump_other, List.map_append, List.nodup_append]
        refine ⟨crossing.once, sends.nodup List.nodup_range', fun frame old frame' new same => ?_⟩
        -- what is around was drained before
        obtain ⟨d, around, rfl⟩ := List.mem_map.1 old
        obtain ⟨d', sent, rfl⟩ := List.mem_map.1 new
        have before := crossing.numbered d around
        rw [Side.other_other] at before
        have after := (mem_sends (List.mem_filter.1 sent).1).2.1
        omega

/-- A side's dialer, connections and close reasons stay, and so does what the other side has. -/
theorem Good.handle (good : t.Good) {t' : Tunnel} {received injected : List Datagram}
    (uplink : t'.uplink = (t.put x { t.uplink x with received, injected }).uplink) (opener : t'.opener = t.opener)
    (fewer : t'.flying.Sublist t.flying) (same : (t'.around x).Perm (t.around x)) : t'.Good where
  held y := by
    rw [opener, uplink]
    by_cases here : y = x
    · subst here
      have held := good.held y
      rw [uplink_put_self]
      exact ⟨held.dialing, held.own, held.single, held.tag, held.once, held.readers, held.known⟩
    · rw [uplink_put_of_ne _ _ here]
      exact good.held y
  crossing y := by
    have drained : (t'.uplink y.other).drained = (t.uplink y.other).drained := by
      rw [uplink]
      by_cases here : y.other = x
      · rw [here, uplink_put_self]
      · rw [uplink_put_of_ne _ _ here]
    by_cases here : y = x
    · subst here
      exact (good.crossing y).of_perm same drained.ge
    · refine (good.crossing y).of_sublist ?_ drained.ge
      rw [around, around, pending, pending, uplink, uplink_put_of_ne _ _ here]
      exact (fewer.filter _).append_left _

theorem perm_of_erased {α : Type} {l : List α} {i : Nat} {a : α} (at_a : l[i]? = some a) : (a :: l.eraseIdx i).Perm l := by
  obtain ⟨bound, rfl⟩ := List.getElem?_eq_some_iff.1 at_a
  exact List.getElem_cons_eraseIdx_perm bound

/-- A datagram arrives where its connection is open. -/
theorem Good.arrive (good : t.Good) {i : Nat} {d : Datagram} (at_d : t.flying[i]? = some d)
    (live : (t.uplink d.origin.other).live d.conn = true) :
    Good { t.put d.origin.other { t.uplink d.origin.other with
      received := (t.uplink d.origin.other).received ++ [d] } with flying := t.flying.eraseIdx i } := by
  refine good.handle rfl rfl (List.eraseIdx_sublist _ i) ?_
  have counts : (decide (d.origin = d.origin.other.other) && (t.uplink d.origin.other).live d.conn) = true := by
    simpa using live
  have leaves := (perm_of_erased at_d).filter fun d' =>
    d'.origin = d.origin.other.other && (t.uplink d.origin.other).live d'.conn
  rw [List.filter_cons, if_pos counts] at leaves
  simp only [around, pending, uplink_put_self, End.live, List.append_assoc] at leaves ⊢
  exact (leaves.append_left _).append_left _

/-- A datagram that has arrived is read. -/
theorem Good.read (good : t.Good) {i : Nat} {d : Datagram} (at_d : (t.uplink x).received[i]? = some d) :
    (t.put x { t.uplink x with
      received := (t.uplink x).received.eraseIdx i, injected := (t.uplink x).injected ++ [d] }).Good := by
  refine good.handle rfl rfl (.refl _) ?_
  have moves := perm_of_erased at_d
  simp only [around, pending, uplink_put_self, End.live, List.append_assoc]
  exact (moves.append_right _).append_left _

theorem Good.step (good : t.Good) (e : Event) (uncrossed : t.Uncrossed e) : (t.step e).Good := by
  cases e with
  | dial x ticket =>
    have held := good.held x
    exact good.put ⟨held.dialing, held.own, held.single, held.tag, held.once, held.readers, held.known⟩ rfl rfl rfl
      fun _ live => live
  | recv x =>
    simp only [Tunnel.step]
    split
    · next new rx waits at_rx =>
        have held := good.held x
        have held' : Held t.opener x { t.uplink x with rx } :=
          ⟨held.dialing, held.own, held.single, held.tag, held.once, held.readers, held.known⟩
        refine (good.put (held'.setTarget new) ?_ ?_ ?_ fun k live => ?_).dialTurn ?_
        · cases new <;> rfl
        · cases new <;> rfl
        · cases new <;> rfl
        · cases new with
          | true => exact live
          | false => exact (Held.live_close live).1
        · rw [uplink_put_self]
          cases new <;> exact waits
    · exact good
  | tick x =>
    simp only [Tunnel.step]
    split
    · next waits => exact good.dialTurn waits
    · exact good
  | connect x ok =>
    simp only [Tunnel.step]
    split
    · exact good
    · next k waits =>
        have held := good.held x
        cases ok with
        | true =>
          exact good.put (held.register true (held.dialing k waits).1 (held.dialing k waits).2
            (.inr ⟨rfl, waits, rfl⟩)) rfl rfl rfl fun _ live => live
        | false => exact good.put (held.giveUp waits) rfl rfl rfl fun _ live => (Held.live_close live).1
  | accept x k =>
    simp only [Tunnel.step]
    split
    · next accepts =>
        exact good.put ((good.held x).register false accepts.1 accepts.2.1 (.inl ⟨rfl, rfl⟩)) rfl rfl rfl
          fun _ live => live
    · exact good
  | lost x k =>
    simp only [Tunnel.step]
    split
    · exact good.put ((good.held x).close [k]) rfl rfl rfl fun _ live => (Held.live_close live).1
    · exact good
  | drain x n => exact good.pump uncrossed
  | arrive i =>
    simp only [Tunnel.step]
    split
    · exact good
    · next d at_d =>
        split
        · next live => exact good.arrive at_d live
        · exact good
  | lose i => exact ⟨good.held, fun y => (good.crossing y).lose i⟩
  | read x i =>
    simp only [Tunnel.step]
    split
    · exact good
    · next d at_d =>
        split
        · exact good.read at_d
        · exact good

/-! ## Whole runs -/

/-- Nothing crosses twice in a run whose frames are all drained uncrossed. -/
theorem crosses_once (events : List Event) (uncrossed : Along step Uncrossed {} events) :
    (events.foldl step {}).AtMostOnce := by
  have turn : ∀ (t : Tunnel) (e : Event), t.Uncrossed e → t.Good → (t.step e).Good :=
    fun _ e uncrossed good => good.step e uncrossed
  exact (Along.keeps turn uncrossed good_fresh).atMostOnce

theorem uncrossed_of_check : ∀ (t : Tunnel) (e : Event), decide (t.Uncrossed e) = true → t.Uncrossed e :=
  fun _ _ => of_decide_eq_true

/-- The left side dials, and two frames cross. -/
theorem crosses_once_dialed : (([.dial .a true, .recv .a, .connect .a true, .accept .b 0, .drain .a 2, .arrive 1,
    .arrive 0, .read .b 0, .read .b 0] : List Event).foldl step {}).AtMostOnce :=
  crosses_once _ (along_of_check uncrossed_of_check (by decide))

/-- Both sides are given the other's ticket and dial before either has accepted: the two
connections stay, and one frame is put into the right trunk twice. -/
theorem both_dial_twice : ¬ (([.dial .a true, .dial .b true, .recv .a, .recv .b, .connect .a true, .connect .b true,
    .accept .a 1, .accept .b 0, .drain .a 1, .arrive 0, .arrive 0, .read .b 0, .read .b 0] : List Event).foldl step
      {}).AtMostOnce := by
  intro once
  exact absurd (once .b) (by decide)

end Tunnel
end Wk.Fabric.Uplink
