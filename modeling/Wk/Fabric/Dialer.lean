/-
# Wk.Fabric.Dialer -- how an uplink holds its dial target

The dialer of one uplink takes its messages and its retry ticks one at a time, and while it
waits for an attempt it takes neither.  It dials when there is a target and none of the
uplink's connections is live, wherever they lead, and it hangs up on what it dialed only when
the target is cleared.

A peer is known by its endpoint id, which a connection is authenticated by; where the peer
may be reached changes nothing here.  A connection that ever came about is numbered, and its
end is seen on this side in its own time.

* `Uplink.Held`: every live connection is in the uplink's list, and an attempt is to the
  current target.
* `dialer_follows_iff`: the dialer follows its target in a run exactly when no turn of it meets a
  live connection that leads elsewhere.

Pole: `dialer_strays` (a ticket changed under a live connection, a third peer dialing in).
-/
import Wk.Library.Run

namespace Wk.Fabric.Dialer

open Wk.Library

set_option autoImplicit false

variable {P : Type}

/-- A connection: its number, where it leads, and whether this side opened it. -/
structure Conn (P : Type) where
  id : Nat
  peer : P
  dialed : Bool
  deriving DecidableEq, Repr

/-- One uplink, as its dialer sees it. -/
structure Uplink (P : Type) where
  conns : List (Conn P) := []
  /-- Every connection that came about. -/
  opened : List (Conn P) := []
  /-- The connections with a close reason. -/
  closed : List Nat := []
  /-- The messages to the dialer. -/
  rx : List (Option P) := []
  target : Option P := none
  /-- The peer of the attempt the dialer waits for. -/
  dialing : Option P := none
  deriving DecidableEq, Repr

inductive Event (P : Type) where
  /-- `Uplink::dial`, with a ticket or an empty one; a bad one sends nothing. -/
  | dial (ticket : Option P)
  /-- The dialer takes its next message. -/
  | recv
  /-- The dialer's retry tick. -/
  | tick
  /-- The dialer's `connect` returns. -/
  | connect (ok : Bool)
  /-- The accept loop has a connection. -/
  | accept (peer : P)
  /-- A connection gets a close reason. -/
  | lost (id : Nat)
  deriving DecidableEq, Repr

namespace Uplink

/-- `close_reason().is_none()`. -/
def live (u : Uplink P) (c : Conn P) : Bool := c.id ∉ u.closed

def connected (u : Uplink P) : Bool := u.conns.any u.live

def register (u : Uplink P) (peer : P) (dialed : Bool) : Uplink P :=
  let conn : Conn P := { id := u.opened.length, peer, dialed }
  { u with conns := u.conns.filter u.live ++ [conn], opened := u.opened ++ [conn] }

/-- The target is set, or cleared; clearing it hangs up on the peer that was dialed. -/
def setTarget (u : Uplink P) : Option P → Uplink P
  | some addr => { u with target := some addr }
  | none =>
    { u with
      target := none
      closed := u.closed ++ (u.conns.filter (·.dialed)).map Conn.id
      conns := u.conns.filter fun c => !c.dialed }

/-- The end of a turn: an attempt, if there is a target and nothing is connected. -/
def pursue (u : Uplink P) : Uplink P :=
  match u.target, u.connected with
  | some addr, false => { u with dialing := some addr }
  | _, _ => u

/-- The message of the turn the dialer takes next, if it waits for no attempt. -/
def next (u : Uplink P) : Option (Option P) := if u.dialing.isNone then u.rx.head? else none

def step (u : Uplink P) : Event P → Uplink P
  | .dial ticket => { u with rx := u.rx ++ [ticket] }
  | .recv =>
    match u.next with
    | some new => ({ u with rx := u.rx.tail }.setTarget new).pursue
    | none => u
  | .tick => if u.dialing.isNone then u.pursue else u
  | .connect ok =>
    match u.dialing with
    | some addr =>
      let u := { u with dialing := none }
      if ok then u.register addr true else u
    | none => u
  | .accept peer => u.register peer false
  | .lost id => if id < u.opened.length then { u with closed := u.closed ++ [id] } else u

/-! ## Following the target -/

/-- Some live connection leads to a peer. -/
def Reaches (u : Uplink P) (p : P) : Prop := ∃ c ∈ u.opened, u.live c = true ∧ c.peer = p

/-- Every live connection this side dialed leads to the target. -/
def Leads (u : Uplink P) : Prop := ∀ c ∈ u.opened, u.live c = true → c.dialed = true → u.target = some c.peer

/-- A target that is set is reached, or an attempt to it is made. -/
def Pursues (u : Uplink P) : Prop := ∀ p, u.target = some p → u.Reaches p ∨ u.dialing = some p

/-- The dialer takes a turn for this event. -/
def Turn (u : Uplink P) : Event P → Prop
  | .recv => u.next.isSome
  | .tick => u.dialing.isNone
  | _ => False

/-- After the event the dialed connections lead to the target, and if it was one the dialer
takes, the target is pursued. -/
def Follows (u : Uplink P) (e : Event P) : Prop :=
  (u.step e).Leads ∧ (u.Turn e → (u.step e).Pursues)

/-- A peer is reached, or there is no live connection. -/
def Settled (u : Uplink P) (p : P) : Prop := u.Reaches p ∨ ∀ c ∈ u.opened, u.live c = false

/-- A turn finds no live connection that leads elsewhere: with a new ticket, none that this
side dialed; with a target, none at all unless the target is reached too. -/
def Clear (u : Uplink P) : Event P → Prop
  | .recv => ∀ p, u.next = some (some p) →
      (∀ c ∈ u.opened, u.live c = true → c.dialed = true → c.peer = p) ∧ u.Settled p
  | .tick => u.dialing = none → ∀ p, u.target = some p → u.Settled p
  | _ => True

/-! ## What every event keeps -/

structure Held (u : Uplink P) : Prop where
  numbered : ∀ c ∈ u.opened, c.id < u.opened.length
  ended : ∀ id ∈ u.closed, id < u.opened.length
  kept : ∀ c ∈ u.opened, u.live c = true → c ∈ u.conns
  known : ∀ c ∈ u.conns, c ∈ u.opened
  dialing : ∀ p, u.dialing = some p → u.target = some p

variable {u : Uplink P}

theorem held_start : ({} : Uplink P).Held := ⟨nofun, nofun, nofun, nofun, nofun⟩

theorem Held.register (held : u.Held) (peer : P) (dialed : Bool) : (u.register peer dialed).Held := by
  refine ⟨fun c opened => ?_, fun id closed => ?_, fun c opened live => ?_, fun c conns => ?_, held.dialing⟩
  · have longer : (u.register peer dialed).opened.length = u.opened.length + 1 := by simp [Uplink.register]
    rw [longer]
    rcases List.mem_append.1 opened with old | new
    · exact Nat.lt_succ_of_lt (held.numbered c old)
    · simp [List.mem_singleton.1 new]
  · have longer : (u.register peer dialed).opened.length = u.opened.length + 1 := by simp [Uplink.register]
    have before := held.ended id closed
    omega
  · rcases List.mem_append.1 opened with old | new
    · exact List.mem_append_left _ (List.mem_filter.2 ⟨held.kept c old live, live⟩)
    · exact List.mem_append_right _ new
  · rcases List.mem_append.1 conns with old | new
    · exact List.mem_append_left _ (held.known c (List.mem_filter.1 old).1)
    · exact List.mem_append_right _ new

/-- What is live once the target is cleared was live, and this side did not dial it. -/
theorem Held.live_clear (held : u.Held) {c : Conn P} (opened : c ∈ u.opened)
    (live : (u.setTarget none).live c = true) : c ∈ u.conns ∧ c.dialed = false := by
  have apart : c.id ∉ u.closed ++ (u.conns.filter (·.dialed)).map Conn.id := by
    simpa [Uplink.live, Uplink.setTarget] using live
  have conns : c ∈ u.conns := held.kept c opened (by
    simpa [Uplink.live] using fun closed => apart (List.mem_append_left _ closed))
  refine ⟨conns, ?_⟩
  by_contra dialed
  exact apart (List.mem_append_right _ (List.mem_map_of_mem (List.mem_filter.2 ⟨conns, by simpa using dialed⟩)))

theorem Held.setTarget (held : u.Held) (idle : u.dialing = none) (new : Option P) : (u.setTarget new).Held := by
  have dialing : ∀ p, u.dialing = some p → new = some p := by simp [idle]
  cases new with
  | some p => exact ⟨held.numbered, held.ended, held.kept, held.known, dialing⟩
  | none =>
    refine ⟨held.numbered, fun id closed => ?_, fun c opened live => ?_, fun c conns => ?_, dialing⟩
    · rcases List.mem_append.1 closed with old | hung
      · exact held.ended id old
      · obtain ⟨c, conns, rfl⟩ := List.mem_map.1 hung
        exact held.numbered c (held.known c (List.mem_filter.1 conns).1)
    · obtain ⟨conns, inbound⟩ := held.live_clear opened live
      exact List.mem_filter.2 ⟨conns, by simp [inbound]⟩
    · exact held.known c (List.mem_filter.1 conns).1

theorem Held.pursue (held : u.Held) : u.pursue.Held := by
  simp only [Uplink.pursue]
  split
  · next addr target _ =>
      exact ⟨held.numbered, held.ended, held.kept, held.known, fun p same => Option.some.inj same ▸ target⟩
  · exact held

theorem next_idle {new : Option P} (next : u.next = some new) : u.dialing = none := by
  simp only [Uplink.next] at next
  split at next
  · next idle => simpa using idle
  · cases next

theorem Held.take (held : u.Held) : ({ u with rx := u.rx.tail } : Uplink P).Held :=
  ⟨held.numbered, held.ended, held.kept, held.known, held.dialing⟩

theorem Held.step (held : u.Held) (e : Event P) : (u.step e).Held := by
  cases e with
  | dial ticket => exact ⟨held.numbered, held.ended, held.kept, held.known, held.dialing⟩
  | recv =>
    simp only [Uplink.step]
    split
    · next new taken =>
        have idle : u.dialing = none := next_idle taken
        exact (held.take.setTarget idle new).pursue
    · exact held
  | tick =>
    simp only [Uplink.step]
    split
    · exact held.pursue
    · exact held
  | connect ok =>
    simp only [Uplink.step]
    split
    · have waits : ({ u with dialing := none } : Uplink P).Held :=
        ⟨held.numbered, held.ended, held.kept, held.known, nofun⟩
      split
      · exact waits.register _ true
      · exact waits
    · exact held
  | accept peer => exact held.register peer false
  | lost id =>
    simp only [Uplink.step]
    split
    · next known =>
        refine ⟨held.numbered, fun id' closed => ?_, fun c opened live => held.kept c opened ?_, held.known,
          held.dialing⟩
        · rcases List.mem_append.1 closed with old | new
          · exact held.ended id' old
          · rwa [List.mem_singleton.1 new]
        · simp only [Uplink.live, List.mem_append, decide_eq_true_eq, not_or] at live ⊢
          exact live.1
    · exact held

/-! ## One turn -/

theorem Held.connected_iff (held : u.Held) : u.connected = false ↔ ∀ c ∈ u.opened, u.live c = false := by
  simp only [Uplink.connected, List.any_eq_false, Bool.not_eq_true]
  constructor
  · intro none c opened
    by_contra live
    exact live (none c (held.kept c opened (by simpa using live)))
  · exact fun none c conns => none c (held.known c conns)

/-- The target is pursued after a turn exactly when it was settled. -/
theorem Held.pursues_iff (held : u.Held) (idle : u.dialing = none) :
    u.pursue.Pursues ↔ ∀ p, u.target = some p → u.Settled p := by
  cases target : u.target with
  | none => simp [Uplink.pursue, Pursues, target]
  | some p =>
    cases connected : u.connected with
    | false =>
      have ended := held.connected_iff.1 connected
      have settled : u.Settled p := .inr ended
      simp [Uplink.pursue, Pursues, target, connected, settled]
    | true =>
      have alive : ¬ ∀ c ∈ u.opened, u.live c = false := fun ended => by
        simp [held.connected_iff.2 ended] at connected
      simp [Uplink.pursue, Pursues, target, connected, Settled, alive, idle]

theorem leads_pursue : u.pursue.Leads ↔ u.Leads := by
  simp only [Uplink.pursue]
  split <;> exact Iff.rfl

/-- Clearing the target leaves no live connection that this side dialed. -/
theorem Held.leads_clear (held : u.Held) : (u.setTarget none).Leads := by
  intro c opened live dialed
  simp [(held.live_clear opened live).2] at dialed

theorem leads_set (p : P) : (u.setTarget (some p)).Leads ↔
    ∀ c ∈ u.opened, u.live c = true → c.dialed = true → c.peer = p := by
  show (∀ c ∈ u.opened, u.live c = true → c.dialed = true → some p = some c.peer) ↔ _
  simp [eq_comm (a := p)]

theorem leads_register (leads : u.Leads) {peer : P} {dialed : Bool}
    (follows : dialed = true → u.target = some peer) : (u.register peer dialed).Leads := by
  intro c opened live was
  rcases List.mem_append.1 opened with old | new
  · exact leads c old live was
  · obtain rfl := List.mem_singleton.1 new
    exact follows was

/-- The dialer follows its target over one event exactly on the condition. -/
theorem Held.follows_iff (held : u.Held) (leads : u.Leads) (e : Event P) : u.Follows e ↔ u.Clear e := by
  cases e with
  | dial ticket => exact iff_of_true ⟨leads, nofun⟩ trivial
  | recv =>
    cases taken : u.next with
    | none => simp [Follows, Clear, Turn, Uplink.step, taken, leads]
    | some new =>
      have idle : u.dialing = none := next_idle taken
      have set := held.take.setTarget idle new
      have pursued := set.pursues_iff (by cases new <;> exact idle)
      simp only [Follows, Clear, Turn, Uplink.step, taken, leads_pursue, pursued, Option.isSome_some,
        true_implies, Option.some.injEq]
      cases new with
      | none => simpa [Uplink.setTarget] using held.take.leads_clear
      | some p =>
        have settled : (∀ q, some p = some q → u.Settled q) ↔ u.Settled p := by simp
        refine (and_congr (leads_set p) settled).trans ?_
        simp only [Option.some.injEq, forall_eq']
        exact Iff.rfl
  | tick =>
    simp only [Follows, Clear, Turn, Uplink.step]
    cases idle : u.dialing with
    | none => simp [leads_pursue, leads, held.pursues_iff idle]
    | some p => simp [leads]
  | connect ok =>
    refine iff_of_true ⟨?_, nofun⟩ trivial
    simp only [Uplink.step]
    split
    · next addr waits =>
        split
        · exact leads_register (u := { u with dialing := none }) leads fun _ => held.dialing addr waits
        · exact leads
    · exact leads
  | accept peer => exact iff_of_true ⟨leads_register leads nofun, nofun⟩ trivial
  | lost id =>
    refine iff_of_true ⟨?_, nofun⟩ trivial
    simp only [Uplink.step]
    split
    · intro c opened live
      simp only [Uplink.live, List.mem_append, decide_eq_true_eq, not_or] at live
      exact leads c opened (by simpa [Uplink.live] using live.1)
    · exact leads

end Uplink

open Uplink in
/-- In a run from the start the dialer follows its target throughout exactly when every turn
finds no live connection that leads elsewhere. -/
theorem dialer_follows_iff (events : List (Event P)) :
    Along Uplink.step Follows ({} : Uplink P) events ↔ Along Uplink.step Clear ({} : Uplink P) events :=
  along_iff (I := fun u => u.Held ∧ u.Leads) (fun _ e held follows => ⟨held.1.step e, follows.1⟩)
    (fun _ e held => held.1.follows_iff held.2 e) ⟨held_start, nofun⟩

/-! ## Pole -/

section Pole

open Uplink

/-- A new ticket leaves the old peer's connection up and dials nobody, and under a third
peer's connection the dialer does not dial its target. -/
theorem dialer_strays :
    ¬ Along Uplink.step Follows ({} : Uplink Nat) [.dial (some 1), .recv, .connect true, .dial (some 2), .recv] ∧
      ¬ Along Uplink.step Follows ({} : Uplink Nat) [.accept 3, .dial (some 1), .recv] := by
  refine ⟨fun follows => ?_, fun follows => ?_⟩
  · have leads := follows.2.2.2.2.1.1 { id := 0, peer := 1, dialed := true } (by decide) rfl rfl
    cases leads
  · rcases follows.2.2.1.2 rfl 1 rfl with ⟨c, opened, -, peer⟩ | dialing
    · obtain rfl := List.mem_singleton.1 opened
      cases peer
    · cases dialing

end Pole

end Wk.Fabric.Dialer
