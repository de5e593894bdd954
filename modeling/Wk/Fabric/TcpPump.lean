/-
# Wk.Fabric.TcpPump -- a TCP connection carried between the host and the fabric

A pump moves bytes between a stream of the host and a socket of the fabric, one loop for both
directions.  A port forward's pump dials the socket itself; a fabric listener's pump is given
one that has been accepted.  Either direction may end before the other.

What the network does to the socket between two turns is any sequence of TCP's moves without a
reset, with the bytes it brings.

* `TcpPump.Intact`: the bytes are carried in order and once, and the loop ends when both
  directions have.
* `pump_intact_iff`: a run is intact exactly when no turn ends the loop early.

Poles: `early_exit` (a server that finishes first, a client that finishes before the
connection is there), `pump_intact_echo`.
-/
import Wk.Fabric.Listeners

namespace Wk.Fabric

open Wk.Library

set_option autoImplicit false

/-! ## The stream side of the socket library -/

/-- A TCP socket with its receive buffer. -/
structure StreamLib (S : Type) extends SocketLib S where
  rx : S → Bytes
  recvSlice : S → Nat → Bytes × S
  sendSlice : S → Bytes → Nat × S

/-- What a close does to the state of a socket. -/
def TcpState.close : TcpState → TcpState
  | .listen | .synSent => .closed
  | .synReceived | .established => .finWait1
  | .closeWait => .lastAck
  | state => state

/-- The states from which more may be received. -/
def TcpState.receives : TcpState → Bool
  | .established | .finWait1 | .finWait2 => true
  | _ => false

/-- The states in which the peer's FIN has been received. -/
def TcpState.finished : TcpState → Bool
  | .closeWait | .closing | .lastAck | .timeWait | .closed => true
  | _ => false

/-- The states of a handshake. -/
def TcpState.opening : TcpState → Bool
  | .synSent | .synReceived => true
  | _ => false

/-- What the library documents of its predicates, its buffers and a close. -/
structure StreamLib.Documented {S : Type} (lib : StreamLib S) : Prop where
  canRecv : ∀ s, lib.canRecv s = true ↔ lib.rx s ≠ []
  mayRecv : ∀ s, lib.mayRecv s = true ↔ (lib.state s).receives = true ∨ lib.rx s ≠ []
  maySend : ∀ s, lib.maySend s = true ↔ lib.state s = .established ∨ lib.state s = .closeWait
  canSend : ∀ s, lib.canSend s = true → lib.maySend s = true
  recv : ∀ s n, 0 < n → lib.rx s ≠ [] → ∃ k, 0 < k ∧ (lib.recvSlice s n).1 = (lib.rx s).take k ∧
    lib.rx (lib.recvSlice s n).2 = (lib.rx s).drop k ∧ lib.state (lib.recvSlice s n).2 = lib.state s
  send : ∀ s data, (lib.sendSlice s data).1 ≤ data.length ∧ lib.rx (lib.sendSlice s data).2 = lib.rx s ∧
    lib.state (lib.sendSlice s data).2 = lib.state s
  close : ∀ s, lib.state (lib.close s) = (lib.state s).close ∧ lib.rx (lib.close s) = lib.rx s

/-- A move of the TCP state machine that a segment or a timer brings about, with no reset and
no timeout. -/
inductive Carry : TcpState → TcpState → Prop
  | dialed : Carry .synSent .established
  | crossed : Carry .synSent .synReceived
  | accepted : Carry .synReceived .established
  | finished : Carry .established .closeWait
  | acked : Carry .finWait1 .finWait2
  | both : Carry .finWait1 .closing
  | ended : Carry .finWait1 .timeWait
  | half : Carry .finWait2 .timeWait
  | crossedFin : Carry .closing .timeWait
  | last : Carry .lastAck .closed
  | waited : Carry .timeWait .closed

/-- What a turn of the hub may do to a socket: moves of TCP, and more bytes until the peer's
FIN, once there is a connection. -/
structure Carries {S : Type} (lib : StreamLib S) (s s' : S) (new : Bytes) : Prop where
  moves : Relation.ReflTransGen Carry (lib.state s) (lib.state s')
  rx : lib.rx s' = lib.rx s ++ new
  open' : new ≠ [] → (lib.state s).finished = false ∧ (lib.state s').opening = false

/-! ## The pump -/

/-- Per-direction buffer of a forwarded connection. -/
def sockBuf : Nat := 64 * 1024

/-- The size of the pump's own buffer. -/
def pumpTmp : Nat := 16 * 1024

/-- What a read of the host's stream comes to: `data []` is its end. -/
inductive HostRead where
  | blocked
  | data (d : Bytes)
  | failed
  deriving DecidableEq, Repr

/-- The loop's variables, and what has passed through it. -/
structure TcpPump (S : Type) where
  sock : S
  toGuest : Bytes := []
  hostEof : Bool := false
  finSent : Bool := false
  /-- The connection has been there; a pump that did not dial does not ask. -/
  sawOpen : Bool
  /-- The loop has ended. -/
  left : Bool := false
  /-- Read from the host, and taken by the socket. -/
  read : Bytes := []
  sent : Bytes := []
  /-- Come from the guest, and written to the host. -/
  arrived : Bytes := []
  written : Bytes := []
  /-- The guest's FIN has come. -/
  guestEnded : Bool := false

inductive PumpEvent (S : Type) where
  /-- One turn of the loop. -/
  | turn (kill : Bool) (read : HostRead) (wrote : Bool)
  /-- The hub leaves the socket as `s`, with more bytes in its buffer. -/
  | hub (s : S) (new : Bytes)

namespace TcpPump

variable {S : Type} (lib : StreamLib S)

/-- Receive until there is nothing to receive. -/
def drain : Nat → S → Bytes × S
  | 0, s => ([], s)
  | fuel + 1, s =>
    if lib.canRecv s then
      match lib.recvSlice s pumpTmp with
      | ([], s) => ([], s)
      | (data, s) =>
        let (more, s) := drain fuel s
        (data ++ more, s)
    else ([], s)

/-- Read from the host, unless it has ended or too much is waiting. -/
def readHost (p : TcpPump S) (read : HostRead) : TcpPump S :=
  if !p.hostEof && p.toGuest.length < sockBuf then
    match read with
    | .blocked => p
    | .data [] => { p with hostEof := true }
    | .data d => { p with toGuest := p.toGuest ++ d, read := p.read ++ d }
    | .failed => { p with hostEof := true }
  else p

/-- How much of the buffer the socket takes. -/
def taken (s : S) (toGuest : Bytes) : Nat :=
  if lib.canSend s && !toGuest.isEmpty then (lib.sendSlice s toGuest).1 else 0

/-- The exchange with the socket: what it gives for the host, and whether the guest is done. -/
def exchange (p : TcpPump S) : TcpPump S × Bytes × Bool :=
  let sawOpen := p.sawOpen || (lib.maySend p.sock || lib.mayRecv p.sock)
  let (toHost, s) := drain lib (lib.rx p.sock).length p.sock
  let n := taken lib s p.toGuest
  let s := if lib.canSend s && !p.toGuest.isEmpty then (lib.sendSlice s p.toGuest).2 else s
  let p := { p with toGuest := p.toGuest.drop n, sent := p.sent ++ p.toGuest.take n, sawOpen }
  let fin := p.hostEof && p.toGuest.isEmpty && !p.finSent
  let s := if fin then lib.close s else s
  ({ p with sock := s, finSent := p.finSent || fin }, toHost,
    lib.state s = .closed || (sawOpen && !lib.mayRecv s && !lib.canRecv s))

/-- The loop ends, with a close unless there was one. -/
def leave (p : TcpPump S) : TcpPump S :=
  { p with left := true, sock := if p.finSent then p.sock else lib.close p.sock }

/-- One turn; `dials` says the pump is a port forward's. -/
def turn (dials : Bool) (p : TcpPump S) (kill : Bool) (read : HostRead) (wrote : Bool) : TcpPump S :=
  if kill then p.leave lib
  else
    let (p, toHost, guestDone) := (p.readHost read).exchange lib
    if !toHost.isEmpty && !wrote then p.leave lib
    else
      let p := { p with written := p.written ++ toHost }
      if guestDone && toHost.isEmpty then p.leave lib
      else if dials && p.hostEof && p.finSent && guestDone then p.leave lib
      else p

def step (dials : Bool) (p : TcpPump S) (e : PumpEvent S) : TcpPump S :=
  if p.left then p
  else
    match e with
    | .turn kill read wrote => p.turn lib dials kill read wrote
    | .hub s new =>
      { p with
        sock := s
        arrived := p.arrived ++ new
        guestEnded := p.guestEnded || (lib.state s).finished }

/-- The pump of a port forward, once its socket has begun to connect. -/
def forwarded (s : S) : TcpPump S := { sock := s, sawOpen := false }

/-- The pump of a fabric listener, over a socket that has been accepted. -/
def accepted (s : S) : TcpPump S :=
  { sock := s, sawOpen := true, arrived := lib.rx s, guestEnded := (lib.state s).finished }

/-! ## What a pump is for -/

/-- The bytes handed to each side are those received from the other, in order and once, and
the loop has ended only if both directions have and nothing is left. -/
structure Intact (p : TcpPump S) : Prop where
  toGuest : p.sent ++ p.toGuest = p.read
  toHost : p.written ++ lib.rx p.sock = p.arrived
  left : p.left = true → p.hostEof = true ∧ p.guestEnded = true ∧ p.toGuest = [] ∧ lib.rx p.sock = []

/-- No kill, no error, no reset. -/
def Peaceful (p : TcpPump S) : PumpEvent S → Prop
  | .turn kill read wrote => kill = false ∧ read ≠ .failed ∧ wrote = true
  | .hub s new => p.left = false → Carries lib p.sock s new

/-- A turn does not end the loop early: with the host at its end and nothing to send, the
connection is there; and with the guest's FIN received and its bytes handed on, the host is
at its end too, and the socket takes what is left. -/
def Timely (p : TcpPump S) : PumpEvent S → Prop
  | .turn _ read _ =>
    p.left = false →
      (lib.state p.sock = .synSent → ¬ ((p.readHost read).hostEof = true ∧ (p.readHost read).toGuest = [])) ∧
      (lib.state p.sock = .closeWait → lib.rx p.sock = [] → (p.readHost read).hostEof = true ∧
        taken lib p.sock (p.readHost read).toGuest = (p.readHost read).toGuest.length)
  | .hub _ _ => True

/-! ## The moves of the network -/

end TcpPump

/-- The states a socket is in once its own side has closed. -/
def TcpState.own : TcpState → Bool
  | .finWait1 | .finWait2 | .closing | .timeWait | .lastAck | .closed => true
  | _ => false

namespace Carry

variable {a b : TcpState}

theorem own_eq (moves : Relation.ReflTransGen Carry a b) : a.own = b.own := by
  induction moves with
  | refl => rfl
  | tail _ move ih => exact ih.trans (by cases move <;> rfl)

/-- Nothing moves into a state in which no segment has come. -/
theorem from_synSent (moves : Relation.ReflTransGen Carry a .synSent) : a = .synSent := by
  rcases Relation.ReflTransGen.cases_tail moves with same | ⟨_, _, move⟩
  · exact same.symm
  · cases move

theorem from_opening (moves : Relation.ReflTransGen Carry a b) (opening : b.opening = true) : a.opening = true := by
  induction moves with
  | refl => exact opening
  | tail _ move ih => exact ih (by revert opening; cases move <;> decide)

theorem not_listen (moves : Relation.ReflTransGen Carry a b) (was : a ≠ .listen) : b ≠ .listen := by
  rcases Relation.ReflTransGen.cases_tail moves with same | ⟨_, _, move⟩
  · exact same ▸ was
  · cases move <;> exact nofun

end Carry

namespace TcpPump

variable {S : Type} {lib : StreamLib S} {dials : Bool} {p : TcpPump S}

/-! ## One turn -/

theorem drain_spec (doc : lib.Documented) : ∀ (fuel : Nat) (s : S), (lib.rx s).length ≤ fuel →
    (drain lib fuel s).1 = lib.rx s ∧ lib.rx (drain lib fuel s).2 = [] ∧ lib.state (drain lib fuel s).2 = lib.state s
  | 0, s, few => by
    have empty : lib.rx s = [] := List.eq_nil_of_length_eq_zero (Nat.le_zero.1 few)
    exact ⟨empty.symm, empty, rfl⟩
  | fuel + 1, s, few => by
    simp only [drain]
    split
    · next can =>
        obtain ⟨k, some', took, left, state⟩ := doc.recv s pumpTmp (by decide) ((doc.canRecv s).1 can)
        obtain ⟨b, rest, full⟩ := List.exists_cons_of_ne_nil ((doc.canRecv s).1 can)
        have fewer : (lib.rx (lib.recvSlice s pumpTmp).2).length ≤ fuel := by
          rw [left, List.length_drop]
          omega
        obtain ⟨more, empty, same⟩ := drain_spec doc fuel (lib.recvSlice s pumpTmp).2 fewer
        generalize lib.recvSlice s pumpTmp = r at took left state more empty same
        obtain ⟨data, s'⟩ := r
        cases data with
        | nil =>
          have none' : (lib.rx s).take k = [] := took.symm
          simp [full, Nat.pos_iff_ne_zero.1 some'] at none'
        | cons d data =>
          refine ⟨?_, empty, same.trans state⟩
          show d :: data ++ (drain lib fuel s').1 = lib.rx s
          rw [more, left]
          exact (congrArg (· ++ _) took).trans (List.take_append_drop k _)
    · next none' =>
        have empty : lib.rx s = [] := by simpa [doc.canRecv] using none'
        exact ⟨empty.symm, empty, rfl⟩

/-- What the exchange with the socket comes to. -/
structure Exchanged (lib : StreamLib S) (q : TcpPump S) (n : Nat) (r : TcpPump S × Bytes × Bool) : Prop where
  toHost : r.2.1 = lib.rx q.sock
  empty : lib.rx r.1.sock = []
  pump : r.1 = { q with
    sock := r.1.sock
    toGuest := q.toGuest.drop n
    sent := q.sent ++ q.toGuest.take n
    sawOpen := q.sawOpen || (lib.maySend q.sock || lib.mayRecv q.sock)
    finSent := q.finSent || (q.hostEof && (q.toGuest.drop n).isEmpty && !q.finSent) }
  state : lib.state r.1.sock =
    if q.hostEof && (q.toGuest.drop n).isEmpty && !q.finSent then (lib.state q.sock).close else lib.state q.sock
  done : r.2.2 = (lib.state r.1.sock = .closed || (r.1.sawOpen && !(lib.state r.1.sock).receives))

theorem exchange_spec (doc : lib.Documented) (q : TcpPump S) :
    Exchanged lib q (taken lib (drain lib (lib.rx q.sock).length q.sock).2 q.toGuest) (q.exchange lib) := by
  obtain ⟨took, empty, state⟩ := drain_spec doc _ q.sock le_rfl
  simp only [exchange]
  generalize drain lib (lib.rx q.sock).length q.sock = d at took empty state
  obtain ⟨toHost, s⟩ := d
  dsimp only at took empty state ⊢
  have sent : lib.rx (if lib.canSend s && !q.toGuest.isEmpty then (lib.sendSlice s q.toGuest).2 else s) = [] ∧
      lib.state (if lib.canSend s && !q.toGuest.isEmpty then (lib.sendSlice s q.toGuest).2 else s) = lib.state q.sock := by
    obtain ⟨-, rx, same⟩ := doc.send s q.toGuest
    split
    · exact ⟨rx.trans empty, same.trans state⟩
    · exact ⟨empty, state⟩
  generalize (if lib.canSend s && !q.toGuest.isEmpty then (lib.sendSlice s q.toGuest).2 else s) = s' at sent
  obtain ⟨empty', state'⟩ := sent
  generalize taken lib s q.toGuest = n
  have closed : lib.rx (if q.hostEof && (q.toGuest.drop n).isEmpty && !q.finSent then lib.close s' else s') = [] ∧
      lib.state (if q.hostEof && (q.toGuest.drop n).isEmpty && !q.finSent then lib.close s' else s') =
        if q.hostEof && (q.toGuest.drop n).isEmpty && !q.finSent then (lib.state q.sock).close else lib.state q.sock := by
    obtain ⟨closes, rx⟩ := doc.close s'
    split
    · exact ⟨rx.trans empty', closes.trans (congrArg _ state')⟩
    · exact ⟨empty', state'⟩
  refine ⟨took, closed.1, rfl, closed.2, ?_⟩
  generalize (if q.hostEof && (q.toGuest.drop n).isEmpty && !q.finSent then lib.close s' else s') = s'' at closed
  have may : lib.mayRecv s'' = (lib.state s'').receives := by
    rw [Bool.eq_iff_iff, doc.mayRecv, closed.1]
    simp
  have can : lib.canRecv s'' = false := by
    rw [Bool.eq_false_iff, ne_eq, doc.canRecv, closed.1]
    simp
  simp [may, can]

/-- The invariant of a loop that goes on. -/
structure Live (lib : StreamLib S) (p : TcpPump S) : Prop where
  fin : p.finSent = true → p.hostEof = true ∧ p.toGuest = []
  own : (lib.state p.sock).own = true → p.finSent = true
  ended : (lib.state p.sock).finished = true → p.guestEnded = true
  early : lib.state p.sock = .synSent → p.finSent = false ∧ p.guestEnded = false
  opening : (lib.state p.sock).opening = true → p.sawOpen = false ∧ lib.rx p.sock = []
  listens : lib.state p.sock ≠ .listen

theorem readHost_spec (p : TcpPump S) (read : HostRead) :
    ∃ d eof, p.readHost read = { p with toGuest := p.toGuest ++ d, read := p.read ++ d, hostEof := eof } ∧
      (p.hostEof = true → d = [] ∧ eof = true) := by
  simp only [readHost]
  split
  · next open' =>
      simp only [Bool.and_eq_true, Bool.not_eq_true'] at open'
      split
      · exact ⟨[], p.hostEof, by simp, by simp⟩
      · exact ⟨[], true, by simp, by simp⟩
      · next d _ => exact ⟨d, p.hostEof, by simp, by simp [open'.1]⟩
      · exact ⟨[], true, by simp, by simp⟩
  · exact ⟨[], p.hostEof, by simp, by simp⟩

/-- A turn that closes or not leaves a loop that goes on as it should be. -/
theorem Live.next (live : Live lib p) {q : TcpPump S} {c : Bool} (rx : lib.rx q.sock = [])
    (fin : q.finSent = true → q.hostEof = true ∧ q.toGuest = []) (finSent : q.finSent = (p.finSent || c))
    (state : lib.state q.sock = if c then (lib.state p.sock).close else lib.state p.sock)
    (ended : q.guestEnded = p.guestEnded) (dialed : lib.state p.sock = .synSent → c = false)
    (opening : (lib.state p.sock).opening = true → q.sawOpen = false) : Live lib q := by
  cases c with
  | false =>
    rw [if_neg Bool.false_ne_true] at state
    rw [Bool.or_false] at finSent
    refine ⟨fin, fun own => ?_, fun finished => ?_, fun early => ?_, fun open' => ⟨opening (state ▸ open'), rx⟩, ?_⟩
    · exact finSent.trans (live.own (state ▸ own))
    · exact ended.trans (live.ended (state ▸ finished))
    · exact ⟨finSent.trans (live.early (state ▸ early)).1, ended.trans (live.early (state ▸ early)).2⟩
    · exact state ▸ live.listens
  | true =>
    rw [if_pos rfl] at state
    have unlistened := live.listens
    have dialed' : lib.state p.sock ≠ .synSent := fun early => by cases dialed early
    have ended' := live.ended
    rw [Bool.or_true] at finSent
    refine ⟨fin, fun _ => finSent, fun finished => ?_, fun early => ?_, fun open' => ?_, ?_⟩
    all_goals
      generalize lib.state p.sock = st at state unlistened dialed' ended'
    · rw [ended]
      refine ended' ?_
      rw [state] at finished
      revert finished unlistened dialed'
      cases st <;> decide
    · rw [early] at state
      cases st <;> cases state
    · rw [state] at open'
      cases st <;> cases open'
    · rw [state]
      revert unlistened
      cases st <;> decide

theorem taken_le (doc : lib.Documented) (s : S) (toGuest : Bytes) : taken lib s toGuest ≤ toGuest.length := by
  simp only [taken]
  split
  · exact (doc.send s toGuest).1
  · exact Nat.zero_le _

/-- Nothing is sent before there is a connection. -/
theorem taken_handshake (doc : lib.Documented) {s : S} (early : lib.state s = .synSent) (toGuest : Bytes) :
    taken lib s toGuest = 0 := by
  have cannot : lib.canSend s = false := by
    rw [Bool.eq_false_iff]
    intro can
    rcases (doc.maySend s).1 (doc.canSend s can) with state | state <;> simp [early] at state
  simp [taken, cannot]

/-- A turn in peace, before it is known whether the loop goes on. -/
theorem turn_peaceful (p : TcpPump S) (read : HostRead) :
    p.turn lib dials false read true =
      let r := (p.readHost read).exchange lib
      let p' := { r.1 with written := r.1.written ++ r.2.1 }
      if (r.2.2 && r.2.1.isEmpty) || (dials && r.1.hostEof && r.1.finSent && r.2.2) then p'.leave lib else p' := by
  simp only [turn, Bool.false_eq_true, if_false, Bool.not_true, Bool.and_false]
  generalize (p.readHost read).exchange lib = r
  obtain ⟨q, toHost, done⟩ := r
  cases done <;> cases toHost <;> simp

/-- What is left of being intact once the bytes are where they should be. -/
theorem intact_leave_iff (doc : lib.Documented) {p : TcpPump S} (goes : p.left = false) (toGuest : p.sent ++ p.toGuest = p.read)
    (toHost : p.written ++ lib.rx p.sock = p.arrived) (empty : lib.rx p.sock = []) (leaves : Bool) :
    Intact lib (if leaves then p.leave lib else p) ↔
      (leaves = true → p.hostEof = true ∧ p.guestEnded = true ∧ p.toGuest = []) := by
  cases leaves with
  | false => exact iff_of_true ⟨toGuest, toHost, fun left => by simp [goes] at left⟩ nofun
  | true =>
    have rx : lib.rx (p.leave lib).sock = lib.rx p.sock := by
      simp only [leave]
      split
      · rfl
      · exact (doc.close p.sock).2
    constructor
    · intro intact _
      obtain ⟨eof, ended, sent, -⟩ := intact.left rfl
      exact ⟨eof, ended, sent⟩
    · intro ends
      obtain ⟨eof, ended, sent⟩ := ends rfl
      exact ⟨toGuest, (congrArg (p.written ++ ·) rx).trans toHost, fun _ => ⟨eof, ended, sent, rx.trans empty⟩⟩

/-- What is asked of a turn by which `waiting` waits for the guest: that a loop that ends has
reason to exactly when the turn is timely, and that a loop that goes on has not closed a socket
that still dials. -/
def Settled (lib : StreamLib S) (p : TcpPump S) (waiting : Bytes) (eof : Bool) (n : Nat) (c leaves : Bool) : Prop :=
  ((leaves = true → eof = true ∧ p.guestEnded = true ∧ waiting.drop n = []) ↔
    (lib.state p.sock = .synSent → ¬ (eof = true ∧ waiting = [])) ∧
    (lib.state p.sock = .closeWait → lib.rx p.sock = [] → eof = true ∧ taken lib p.sock waiting = waiting.length)) ∧
  (leaves = false → lib.state p.sock = .synSent → c = false)

section Settled

variable {waiting : Bytes} {eof : Bool} {n : Nat} {c leaves : Bool}

/-- Where the loop goes on, only the handshake and the half-close ask something of the turn. -/
theorem Settled.goes_on (goes : leaves = false) (dialed : lib.state p.sock ≠ .synSent) (waits : lib.state p.sock ≠ .closeWait) :
    Settled lib p waiting eof n c leaves := by
  subst goes
  refine ⟨iff_of_true nofun ⟨fun early => absurd early dialed, fun half => absurd half waits⟩, fun _ early => ?_⟩
  exact absurd early dialed

/-- Where this side has closed and the guest has ended, the loop may end. -/
theorem Live.settled (live : Live lib p) (own : (lib.state p.sock).own = true) (finished : (lib.state p.sock).finished = true)
    (sent : eof = true ∧ waiting.drop n = []) : Settled lib p waiting eof n c leaves := by
  refine ⟨iff_of_true (fun _ => ⟨sent.1, live.ended finished, sent.2⟩) ⟨fun early => ?_, fun half => ?_⟩, fun _ early => ?_⟩
  · simp [early, TcpState.own] at own
  · simp [half, TcpState.own] at own
  · simp [early, TcpState.own] at own

end Settled

theorem Live.turn (doc : lib.Documented) (live : Live lib p) (intact : Intact lib p) (goes : p.left = false) (read : HostRead) :
    (Intact lib (p.turn lib dials false read true) ↔ Timely lib p (.turn false read true)) ∧
      ((p.turn lib dials false read true).left = false → Live lib (p.turn lib dials false read true)) := by
  obtain ⟨d, eof, host, still⟩ := readHost_spec p read
  have spec := exchange_spec doc (p.readHost read)
  rw [turn_peaceful]
  simp only [Timely, goes, true_implies]
  rw [host] at spec ⊢
  generalize exchange lib _ = r at spec ⊢
  obtain ⟨r, toHost, done⟩ := r
  obtain ⟨took, empty, pump, state, done'⟩ := spec
  dsimp only at took empty pump state done' ⊢
  generalize sends : taken lib (drain lib (lib.rx p.sock).length p.sock).2 (p.toGuest ++ d) = n at pump state
  -- `c`: the turn closes the socket.
  generalize closes : (eof && ((p.toGuest ++ d).drop n).isEmpty && !p.finSent) = c at pump state
  have finSent : r.finSent = (p.finSent || c) := by rw [pump]
  have eof' : r.hostEof = eof := by rw [pump]
  have toGuest : r.toGuest = (p.toGuest ++ d).drop n := by rw [pump]
  have fin : r.finSent = true → eof = true ∧ (p.toGuest ++ d).drop n = [] := by
    rw [finSent, Bool.or_eq_true]
    rintro (before | now)
    · obtain ⟨at_end, empty'⟩ := live.fin before
      obtain ⟨rfl, same⟩ := still at_end
      exact ⟨same, by simp [empty']⟩
    · rw [← closes] at now
      simp only [Bool.and_eq_true, List.isEmpty_iff] at now
      exact now.1
  rw [intact_leave_iff doc (p := { r with written := r.written ++ toHost })]
  rotate_left
  · rw [pump]
    exact goes
  · show r.sent ++ r.toGuest = r.read
    rw [pump]
    simp [List.append_assoc, ← intact.toGuest]
  · show r.written ++ toHost ++ lib.rx r.sock = r.arrived
    rw [pump, took, empty, List.append_nil]
    exact intact.toHost
  · exact empty
  have ended : r.guestEnded = p.guestEnded := by rw [pump]
  have sawOpen : r.sawOpen = (p.sawOpen || (lib.maySend p.sock || lib.mayRecv p.sock)) := by rw [pump]
  have opening : (lib.state p.sock).opening = true → r.sawOpen = false := by
    intro opening
    obtain ⟨unseen, nothing⟩ := live.opening opening
    have send : lib.maySend p.sock = false := by
      rw [Bool.eq_false_iff, ne_eq, doc.maySend]
      rintro (state | state) <;> simp [state, TcpState.opening] at opening
    have recv : lib.mayRecv p.sock = false := by
      rw [Bool.eq_false_iff, ne_eq, doc.mayRecv]
      rintro (state | more)
      · generalize lib.state p.sock = st at opening state
        cases st <;> cases opening <;> cases state
      · exact more nothing
    rw [sawOpen, unseen, send, recv]
    rfl
  generalize loop : (done && toHost.isEmpty || dials && r.hostEof && r.finSent && done) = leaves
  suffices both : Settled lib p (p.toGuest ++ d) eof n c leaves by
    refine ⟨by simpa only [eof', ended, toGuest] using both.1, fun goes' => ?_⟩
    cases leaves with
    | true => cases goes'
    | false =>
      exact live.next (q := { r with written := r.written ++ toHost }) empty
        (fun sent => by simpa only [eof', toGuest] using fin sent) finSent state ended (both.2 rfl) opening
  have on (undone : done = false) (dialed : lib.state p.sock ≠ .synSent) (waits : lib.state p.sock ≠ .closeWait) :
      Settled lib p (p.toGuest ++ d) eof n c leaves :=
    Settled.goes_on (by simp [← loop, undone]) dialed waits
  have ends (own : (lib.state p.sock).own = true) (finished : (lib.state p.sock).finished = true) :
      Settled lib p (p.toGuest ++ d) eof n c leaves :=
    live.settled own finished (fin (by rw [finSent, live.own own]; rfl))
  cases st : lib.state p.sock with
  | listen => exact absurd st live.listens
  | synSent =>
    obtain ⟨unsent, waits⟩ := live.early st
    have still' : r.sawOpen = false := opening (by simp [st, TcpState.opening])
    have quiet : lib.rx p.sock = [] := (live.opening (by simp [st, TcpState.opening])).2
    have none' : n = 0 := sends ▸ taken_handshake doc (by simp [(drain_spec doc _ p.sock le_rfl).2.2, st]) _
    have closing : c = (eof && (p.toGuest ++ d).isEmpty) := by simp [← closes, none', unsent]
    have guest : done = c := by
      rw [done', state, st, still']
      cases c <;> simp [TcpState.close]
    have leaving : leaves = c := by
      rw [← loop, took, quiet, guest]
      cases c <;> simp
    rw [leaving, Settled, st, waits, closing, none']
    refine ⟨?_, fun open' _ => open'⟩
    simp [Bool.and_eq_true, List.isEmpty_iff]
  | synReceived =>
    refine on ?_ (by simp [st]) (by simp [st])
    rw [done', state, st, opening (by simp [st, TcpState.opening])]
    cases c <;> simp [TcpState.close]
  | established =>
    refine on ?_ (by simp [st]) (by simp [st])
    rw [done', state, st]
    cases c <;> simp [TcpState.close, TcpState.receives]
  | finWait1 =>
    refine on ?_ (by simp [st]) (by simp [st])
    rw [done', state, st]
    cases c <;> simp [TcpState.close, TcpState.receives]
  | finWait2 =>
    refine on ?_ (by simp [st]) (by simp [st])
    rw [done', state, st]
    cases c <;> simp [TcpState.close, TcpState.receives]
  | closeWait =>
    have seen : r.sawOpen = true := by
      rw [sawOpen, (doc.maySend p.sock).2 (.inr st)]
      simp
    have guest : done = true := by
      rw [done', state, st, seen]
      cases c <;> simp [TcpState.close, TcpState.receives]
    have ended' : p.guestEnded = true := live.ended (by simp [st, TcpState.finished])
    have leaving : leaves = true ↔ lib.rx p.sock = [] ∨ dials = true ∧ eof = true ∧ r.finSent = true := by
      rw [← loop, took, guest, eof']
      simp [and_assoc]
    rw [Settled, st]
    refine ⟨⟨fun ends => ⟨nofun, fun _ quiet => ?_⟩, fun timely leave => ?_⟩, fun _ => nofun⟩
    · obtain ⟨at_end, -, sent⟩ := ends (leaving.2 (.inl quiet))
      have same : (drain lib (lib.rx p.sock).length p.sock).2 = p.sock := by rw [quiet]; rfl
      rw [same] at sends
      exact ⟨at_end, Nat.le_antisymm (taken_le doc _ _) (sends ▸ List.drop_eq_nil_iff.1 sent)⟩
    · rcases leaving.1 leave with quiet | ⟨-, at_end, closed⟩
      · obtain ⟨at_end, all⟩ := timely.2 rfl quiet
        have same : (drain lib (lib.rx p.sock).length p.sock).2 = p.sock := by rw [quiet]; rfl
        rw [same] at sends
        exact ⟨at_end, ended', List.drop_eq_nil_iff.2 (by rw [← sends, all])⟩
      · exact ⟨at_end, ended', (fin closed).2⟩
  | closing => exact ends (by simp [st, TcpState.own]) (by simp [st, TcpState.finished])
  | lastAck => exact ends (by simp [st, TcpState.own]) (by simp [st, TcpState.finished])
  | timeWait => exact ends (by simp [st, TcpState.own]) (by simp [st, TcpState.finished])
  | closed => exact ends (by simp [st, TcpState.own]) (by simp [st, TcpState.finished])

/-! ## A run -/

/-- A pump as it starts: of a port forward over a socket that has begun to connect, of a
fabric listener over one that has been accepted. -/
inductive Starts (lib : StreamLib S) : Bool → TcpPump S → Prop
  | forwarded {s : S} (dialed : lib.state s = .synSent) (fresh : lib.rx s = []) : Starts lib true (forwarded s)
  | accepted {s : S} (open' : lib.state s = .established ∨ lib.state s = .closeWait) : Starts lib false (accepted lib s)

/-- What every peaceful event keeps of a pump that has been intact so far. -/
def Kept (lib : StreamLib S) (p : TcpPump S) : Prop := Intact lib p ∧ (p.left = false → Live lib p)

theorem Starts.kept (starts : Starts lib dials p) : Kept lib p := by
  cases starts with
  | forwarded dialed fresh =>
    refine ⟨⟨rfl, fresh, nofun⟩, fun _ => ⟨nofun, fun own => ?_, fun finished => ?_, fun _ => ⟨rfl, rfl⟩,
      fun _ => ⟨rfl, fresh⟩, fun listens => ?_⟩⟩
    · simp [TcpPump.forwarded, dialed, TcpState.own] at own
    · simp [TcpPump.forwarded, dialed, TcpState.finished] at finished
    · simp [TcpPump.forwarded, dialed] at listens
  | @accepted s open' =>
    refine ⟨⟨rfl, rfl, nofun⟩, fun _ => ⟨nofun, fun own => ?_, fun finished => finished, fun early => ?_, fun opening => ?_,
      fun listens => ?_⟩⟩
    · rcases open' with state | state <;> simp [TcpPump.accepted, state, TcpState.own] at own
    · rcases open' with state | state <;> simp [TcpPump.accepted, state] at early
    · rcases open' with state | state <;> simp [TcpPump.accepted, state, TcpState.opening] at opening
    · rcases open' with state | state <;> simp [TcpPump.accepted, state] at listens

theorem Kept.hub (kept : Kept lib p) (goes : p.left = false) {s : S} {new : Bytes} (carries : Carries lib p.sock s new) :
    Kept lib (p.step lib dials (.hub s new)) := by
  have live := kept.2 goes
  simp only [step, goes, Bool.false_eq_true, if_false]
  refine ⟨⟨kept.1.toGuest, ?_, nofun⟩, fun _ => ⟨live.fin, fun own => ?_, fun finished => ?_,
    fun early => ?_, fun opening => ?_, Carry.not_listen carries.moves live.listens⟩⟩
  · show p.written ++ lib.rx s = p.arrived ++ new
    rw [carries.rx, ← List.append_assoc, kept.1.toHost]
  · exact live.own ((Carry.own_eq carries.moves).trans own)
  · show (p.guestEnded || (lib.state s).finished) = true
    rw [show (lib.state s).finished = true from finished, Bool.or_true]
  · have early' : lib.state s = .synSent := early
    have was := Carry.from_synSent (early' ▸ carries.moves)
    obtain ⟨unsent, waits⟩ := live.early was
    exact ⟨unsent, by simp [early', waits, TcpState.finished]⟩
  · obtain ⟨unseen, quiet⟩ := live.opening (Carry.from_opening carries.moves opening)
    have none' : new = [] := by
      by_contra more
      exact Bool.false_ne_true ((carries.open' more).2.symm.trans opening)
    exact ⟨unseen, by show lib.rx s = []; rw [carries.rx, quiet, none']; rfl⟩

theorem step_left (done : p.left = true) (e : PumpEvent S) : p.step lib dials e = p := by
  simp [step, done]

/-- A peaceful event keeps a pump intact exactly when it is timely, and then it keeps the
invariant too. -/
theorem Kept.step (doc : lib.Documented) (kept : Kept lib p) {e : PumpEvent S} (peaceful : Peaceful lib p e) :
    (Intact lib (p.step lib dials e) ↔ Timely lib p e) ∧
      (Intact lib (p.step lib dials e) → Kept lib (p.step lib dials e)) := by
  cases goes : p.left with
  | true =>
    rw [step_left goes]
    refine ⟨iff_of_true kept.1 ?_, fun _ => kept⟩
    cases e with
    | turn kill read wrote => exact fun on => by simp [goes] at on
    | hub s new => trivial
  | false =>
    cases e with
    | turn kill read wrote =>
      obtain ⟨rfl, -, rfl⟩ := peaceful
      simp only [TcpPump.step, goes, Bool.false_eq_true, if_false]
      obtain ⟨same, live⟩ := (kept.2 goes).turn doc kept.1 goes read
      exact ⟨same, fun intact => ⟨intact, live⟩⟩
    | hub s new =>
      have kept' : Kept lib (p.step lib dials (.hub s new)) := kept.hub goes (peaceful goes)
      exact ⟨iff_of_true kept'.1 trivial, fun _ => kept'⟩

end TcpPump

open TcpPump in
/-- A pump of either kind, in any run with no kill, no error and no reset, carries the bytes in
order and once and ends its loop only when both directions have ended, exactly when no turn of
the run ends the loop early. -/
theorem pump_intact_iff {S : Type} {lib : StreamLib S} (doc : lib.Documented) {dials : Bool} {start : TcpPump S}
    (starts : Starts lib dials start) {events : List (PumpEvent S)}
    (peaceful : Along (TcpPump.step lib dials) (Peaceful lib) start events) :
    Along (TcpPump.step lib dials) (fun p e => Intact lib (p.step lib dials e)) start events ↔
      Along (TcpPump.step lib dials) (Timely lib) start events := by
  have same : Along (TcpPump.step lib dials) (fun p e => Peaceful lib p e ∧ Intact lib (p.step lib dials e)) start events ↔
      Along (TcpPump.step lib dials) (fun p e => Peaceful lib p e ∧ Timely lib p e) start events :=
    along_iff (fun _ _ kept both => (kept.step doc both.1).2 both.2)
      (fun _ _ kept => and_congr_right fun peaceful => (kept.step doc peaceful).1) starts.kept
  simpa only [along_and, peaceful, true_and] using same

/-! ## Poles -/

section Poles

open TcpPump

/-- A TCP socket that sends at once what it is given. -/
structure Duplex where
  state : TcpState := .synSent
  rx : Bytes := []
  tx : Bytes := []
  deriving DecidableEq, Repr

def duplex : StreamLib Duplex where
  tcp := {}
  udp := {}
  state := Duplex.state
  listen _ _ := none
  connect _ _ _ := none
  bind _ _ := none
  close s := { s with state := s.state.close }
  abort s := { s with state := .closed }
  localEndpoint _ := none
  remoteEndpoint _ := none
  sendQueue _ := 0
  canRecv s := !s.rx.isEmpty
  mayRecv s := s.state.receives || !s.rx.isEmpty
  canSend s := s.state = .established || s.state = .closeWait
  maySend s := s.state = .established || s.state = .closeWait
  rx := Duplex.rx
  recvSlice s n := (s.rx.take n, { s with rx := s.rx.drop n })
  sendSlice s data :=
    if s.state = .established ∨ s.state = .closeWait then (data.length, { s with tx := s.tx ++ data }) else (0, s)

theorem duplex_documented : duplex.Documented where
  canRecv s := by simp [duplex]
  mayRecv s := by simp [duplex]
  maySend s := by simp [duplex]
  canSend s can := can
  recv s n some' _ := ⟨n, some', rfl, rfl, rfl⟩
  send s data := by
    simp only [duplex]
    split
    · exact ⟨le_rfl, rfl, rfl⟩
    · exact ⟨Nat.zero_le _, rfl, rfl⟩
  close s := ⟨rfl, rfl⟩

/-- The connection of a port forward is there. -/
def dialed : PumpEvent Duplex := .hub { state := .established } []

/-- The guest sends a byte and its FIN. -/
def finishes : PumpEvent Duplex := .hub { state := .closeWait, rx := [1] } [1]

def idle : PumpEvent Duplex := .turn false .blocked true

theorem dialed_carries : Carries duplex {} { state := .established } [] where
  moves := .single .dialed
  rx := rfl
  open' := nofun

theorem finishes_carries : Carries duplex { state := .established } { state := .closeWait, rx := [1] } [1] where
  moves := .single .finished
  rx := rfl
  open' _ := ⟨rfl, rfl⟩

theorem idle_peaceful (p : TcpPump Duplex) : Peaceful duplex p idle := ⟨rfl, nofun, rfl⟩

/-- A guest that finishes first ends either pump while the host may still send; a host that
finishes before the connection is there ends a port forward's. -/
theorem early_exit :
    (Along (step duplex true) (Peaceful duplex) (forwarded {}) [dialed, finishes, idle, idle] ∧
      ¬ Along (step duplex true) (fun p e => Intact duplex (p.step duplex true e)) (forwarded {}) [dialed, finishes, idle, idle]) ∧
    (Along (step duplex false) (Peaceful duplex) (accepted duplex { state := .established }) [finishes, idle, idle] ∧
      ¬ Along (step duplex false) (fun p e => Intact duplex (p.step duplex false e))
        (accepted duplex { state := .established }) [finishes, idle, idle]) ∧
    (Along (step duplex true) (Peaceful duplex) (forwarded {}) [.turn false (.data []) true] ∧
      ¬ Along (step duplex true) (fun p e => Intact duplex (p.step duplex true e)) (forwarded {}) [.turn false (.data []) true]) := by
  refine ⟨⟨⟨fun _ => dialed_carries, fun _ => finishes_carries, idle_peaceful _, idle_peaceful _, trivial⟩, fun intact => ?_⟩,
    ⟨⟨fun _ => finishes_carries, idle_peaceful _, idle_peaceful _, trivial⟩, fun intact => ?_⟩,
    ⟨⟨⟨rfl, nofun, rfl⟩, trivial⟩, fun intact => ?_⟩⟩
  -- The host has not ended.
  · exact absurd (intact.2.2.2.1.left (by decide)).1 (by decide)
  · exact absurd (intact.2.2.1.left (by decide)).1 (by decide)
  -- The guest has not ended.
  · exact absurd (intact.1.left (by decide)).2.1 (by decide)

/-- A request and its answer, the host finishing first. -/
def exchanged : List (PumpEvent Duplex) :=
  [dialed, .turn false (.data [7]) true, .turn false (.data []) true,
    .hub { state := .finWait2, rx := [8], tx := [7] } [8], idle, .hub { state := .timeWait, tx := [7] } [], idle]

theorem exchanged_peaceful : Along (step duplex true) (Peaceful duplex) (forwarded {}) exchanged := by
  refine ⟨fun _ => dialed_carries, ⟨rfl, nofun, rfl⟩, ⟨rfl, nofun, rfl⟩, fun _ => ⟨.single .acked, rfl, fun _ => ⟨rfl, rfl⟩⟩,
    idle_peaceful _, fun _ => ⟨.single .half, rfl, nofun⟩, idle_peaceful _, trivial⟩

theorem pump_intact_echo :
    Along (step duplex true) (fun p e => Intact duplex (p.step duplex true e)) (forwarded {}) exchanged ∧
      (exchanged.foldl (step duplex true) (forwarded {})).left = true := by
  refine ⟨(pump_intact_iff duplex_documented (.forwarded rfl rfl) exchanged_peaceful).2 ?_, by decide⟩
  refine ⟨trivial, fun _ => ⟨?_, ?_⟩, fun _ => ⟨?_, ?_⟩, trivial, fun _ => ⟨?_, ?_⟩, trivial, fun _ => ⟨?_, ?_⟩, trivial⟩
  all_goals exact fun early => absurd early (by decide)

end Poles

end Wk.Fabric
