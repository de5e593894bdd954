/-
# Wk.Fabric.HostConn -- a TCP connection over a host gateway

A connection to the host network is a thread of its own with a pipe to the guest and one from
it.  The thread connects, and then pumps: it reads from the host into the one pipe and writes to
the host what is in the other, until the host has ended, a read or a write fails, or the guest
drops the socket.  The guest reads, writes and polls between any two steps of the thread, each
of which is one access to a pipe, a flag or the host's socket.

* `HostConn.step`: one such step, of the thread or of the guest.
* `HostConn.Lossless`: what is carried and in which order, what a guest is told once the thread
  has ended, and who has been woken.
* `gateway_lossless`: a run is lossless in which the host ends only after the guest has closed
  its sending side and all of it is written, and nobody starts to wait after the last wake.

Poles: `gateway_loses` (what the guest has sent is lost as the host ends first, and it may go on
sending; a task that asks while the connect settles sleeps).
-/
import Wk.Fabric.Resources
import Wk.Library.Run

namespace Wk.Fabric

open Wk.Library

set_option autoImplicit false

/-! ## Pipes -/

/-- Cap, per direction, on a gateway connection's bridge buffer. -/
def hostBufCap : Nat := 256 * 1024

/-- The size of the pump's own buffer. -/
def hostPumpTmp : Nat := 16 * 1024

/-- What a parked task waits for: the connect to settle, bytes to read, room to write. -/
inductive Awaits where
  | connect | readable | writable
  deriving DecidableEq, Repr

/-- A parked waker.  `due` records that what the task waits for has come since. -/
structure Waker where
  task : Nat
  awaits : Awaits
  due : Bool := false
  deriving DecidableEq, Repr

/-- One direction of a gateway connection. -/
structure Pipe where
  buf : Bytes := []
  closed : Bool := false
  wakers : List Waker := []
  deriving DecidableEq, Repr

/-- A call on a stream, which may be told that it is closed. -/
abbrev StreamResult (α : Type) := Except Unit α

/-- What a poll of a 0.3 stream comes to, with what it has passed on. -/
inductive Streamed (α : Type) where
  | completed (passed : α)
  | cancelled | dropped | pending
  deriving DecidableEq, Repr

def Streamed.passed : Streamed Bytes → Bytes
  | .completed bytes => bytes
  | _ => []

namespace Pipe

variable (p : Pipe)

/-- Room for more, up to the cap. -/
def room : Nat := hostBufCap - p.buf.length

@[simp] def park (task : Nat) (awaits : Awaits) : Pipe := { p with wakers := p.wakers ++ [{ task, awaits }] }

/-- Everybody parked is woken. -/
@[simp] def wake : Pipe := { p with wakers := [] }

/-- Ready when the pipe has data or is closed. -/
def pollReady (task : Nat) : Pipe × Bool := if p.buf ≠ [] ∨ p.closed = true then (p, true) else (p.park task .readable, false)

/-- Ready when the pipe has room or is closed. -/
def pollWritable (task : Nat) : Pipe × Bool :=
  if p.closed = true ∨ p.buf.length < hostBufCap then (p, true) else (p.park task .writable, false)

def read (size : Nat) : Pipe × StreamResult Bytes :=
  if p.buf = [] then (p, if p.closed then .error () else .ok [])
  else ({ p with buf := p.buf.drop (min size p.buf.length) }, .ok (p.buf.take (min size p.buf.length)))

def checkWrite : StreamResult Nat := if p.closed then .error () else .ok p.room

def write (bytes : Bytes) : Pipe × StreamResult Unit :=
  if p.closed then (p, .error ()) else ({ p with buf := p.buf ++ bytes }, .ok ())

/-- A poll of the 0.3 receiving half, into a buffer of `n` bytes. -/
def produce (n : Nat) (finish : Bool) (task : Nat) : Pipe × Streamed Bytes :=
  if n = 0 then (p, .completed [])
  else if p.buf = [] then
    if p.closed then (p, .dropped)
    else if finish then (p, .cancelled)
    else (p.park task .readable, .pending)
  else ({ p with buf := p.buf.drop (min n p.buf.length) }, .completed (p.buf.take (min n p.buf.length)))

/-- A poll of the 0.3 sending half, with what the guest has to send. -/
def consume (src : Bytes) (finish : Bool) (task : Nat) : Pipe × Streamed Bytes :=
  if p.closed then (p, .dropped)
  else if src = [] then
    if 0 < p.room then (p, .completed [])
    else if finish then (p, .cancelled)
    else (p.park task .writable, .pending)
  else if p.room = 0 then
    if finish then (p, .cancelled) else (p.park task .writable, .pending)
  else ({ p with buf := p.buf ++ src.take (min p.room src.length) }, .completed (src.take (min p.room src.length)))

theorem read_split (size : Nat) : p.buf = (p.read size).2.toOption.getD [] ++ (p.read size).1.buf := by
  simp only [read]
  split
  · next none' => split <;> simp [none', Except.toOption]
  · simp [Except.toOption]

theorem write_joined (bytes : Bytes) :
    (p.write bytes).1.buf = p.buf ++ if (p.write bytes).2.toOption.isSome then bytes else [] := by
  simp only [write]
  split <;> simp [Except.toOption]

variable (finish : Bool) (task : Nat)

theorem produce_split (n : Nat) : p.buf = (p.produce n finish task).2.passed ++ (p.produce n finish task).1.buf := by
  simp only [produce]
  split
  · rfl
  · split
    · split
      · rfl
      · split <;> rfl
    · simp [Streamed.passed]

theorem consume_joined (src : Bytes) :
    (p.consume src finish task).1.buf = p.buf ++ (p.consume src finish task).2.passed := by
  simp only [consume]
  split
  · exact (List.append_nil _).symm
  · split
    · split
      · exact (List.append_nil _).symm
      · split <;> exact (List.append_nil _).symm
    · split
      · split <;> exact (List.append_nil _).symm
      · rfl

@[simp] theorem write_closed (bytes : Bytes) : (p.write bytes).1.closed = p.closed := by
  simp only [write]
  split <;> rfl

@[simp] theorem write_wakers (bytes : Bytes) : (p.write bytes).1.wakers = p.wakers := by
  simp only [write]
  split <;> rfl

@[simp] theorem read_wakers (size : Nat) : (p.read size).1.wakers = p.wakers := by
  simp only [read]
  split <;> rfl

@[simp] theorem consume_closed (src : Bytes) : (p.consume src finish task).1.closed = p.closed := by
  simp only [consume]
  split
  · rfl
  · split
    · split
      · rfl
      · split <;> rfl
    · split
      · split <;> rfl
      · rfl

@[simp] theorem pollWritable_closed : (p.pollWritable task).1.closed = p.closed := by
  simp only [pollWritable]
  split <;> rfl

variable {p} in
/-- A closed pipe takes nothing more. -/
theorem write_shut (shut : p.closed = true) (bytes : Bytes) : p.write bytes = (p, .error ()) := by simp [write, shut]

variable {p} in
theorem consume_shut (shut : p.closed = true) (src : Bytes) : p.consume src finish task = (p, .dropped) := by
  simp [consume, shut]

/-- A pipe from which bytes were taken. -/
structure Taken (p' : Pipe) : Prop where
  wakers : p'.wakers = p.wakers
  closed : p'.closed = p.closed
  buf : p'.buf ≠ [] → p.buf ≠ []

/-- A pipe that has taken bytes. -/
structure Given (p' : Pipe) : Prop where
  wakers : p'.wakers = p.wakers
  closed : p'.closed = p.closed
  buf : p.buf.length ≤ p'.buf.length

theorem read_taken (size : Nat) : p.Taken (p.read size).1 := by
  refine ⟨read_wakers p size, ?_, fun some' none' => some' ?_⟩
  · simp only [read]
    split <;> rfl
  · have split := p.read_split size
    rw [none'] at split
    exact (List.append_eq_nil_iff.1 split.symm).2

theorem write_given (bytes : Bytes) : p.Given (p.write bytes).1 :=
  ⟨write_wakers p bytes, write_closed p bytes, by simp [write_joined]⟩

theorem pollReady_cases : (p.pollReady task).1 = p ∨
    p.buf = [] ∧ p.closed = false ∧ (p.pollReady task).1 = p.park task .readable := by
  by_cases ready : p.buf ≠ [] ∨ p.closed = true
  · exact .inl (by simp only [pollReady, if_pos ready])
  · simp only [not_or, not_not, Bool.not_eq_true] at ready
    exact .inr ⟨ready.1, ready.2, by simp [pollReady, ready.1, ready.2]⟩

theorem pollWritable_cases : (p.pollWritable task).1 = p ∨
    p.closed = false ∧ hostBufCap ≤ p.buf.length ∧ (p.pollWritable task).1 = p.park task .writable := by
  by_cases ready : p.closed = true ∨ p.buf.length < hostBufCap
  · exact .inl (by simp only [pollWritable, if_pos ready])
  · simp only [not_or, not_lt, Bool.not_eq_true] at ready
    exact .inr ⟨ready.1, ready.2, by simp [pollWritable, ready.1, Nat.not_lt.2 ready.2]⟩

theorem produce_cases (n : Nat) : p.Taken (p.produce n finish task).1 ∨
    n ≠ 0 ∧ finish = false ∧ p.buf = [] ∧ p.closed = false ∧ (p.produce n finish task).1 = p.park task .readable := by
  have same : p.Taken p := ⟨rfl, rfl, id⟩
  simp only [produce]
  split
  · exact .inl same
  · next some' =>
      split
      · next none' =>
          split
          · exact .inl same
          · next stays =>
              split
              · exact .inl same
              · next goes => exact .inr ⟨some', by simpa using goes, none', by simpa using stays, rfl⟩
      · next filled => exact .inl ⟨rfl, rfl, fun _ => filled⟩

theorem consume_cases (src : Bytes) : p.Given (p.consume src finish task).1 ∨
    p.closed = false ∧ hostBufCap ≤ p.buf.length ∧ (p.consume src finish task).1 = p.park task .writable := by
  have same : p.Given p := ⟨rfl, rfl, le_rfl⟩
  have full : ¬0 < p.room → hostBufCap ≤ p.buf.length := by
    simp only [room]
    omega
  simp only [consume]
  split
  · exact .inl same
  · next opened =>
      have opened' : p.closed = false := by simpa using opened
      split
      · split
        · exact .inl same
        · next stuck =>
            split
            · exact .inl same
            · exact .inr ⟨opened', full stuck, rfl⟩
      · split
        · next stuck =>
            split
            · exact .inl same
            · exact .inr ⟨opened', full (by omega), rfl⟩
        · exact .inl ⟨rfl, rfl, by simp⟩

theorem pollReady_buf : (p.pollReady task).1.buf = p.buf := by
  simp only [pollReady]
  split <;> rfl

theorem pollWritable_buf : (p.pollWritable task).1.buf = p.buf := by
  simp only [pollWritable]
  split <;> rfl

end Pipe

/-! ## The connection -/

/-- Where the connection's thread is: what it does next. -/
inductive PumpAt where
  /-- Waits for the connect. -/
  | connecting
  /-- Has stored a flag, and wakes next. -/
  | settled
  /-- Looks whether the guest has dropped the socket. -/
  | head
  /-- Looks whether the guest's inbox has room. -/
  | asking
  | reading
  | received (bytes : Bytes)
  /-- Has filled the inbox, and wakes next. -/
  | delivered
  /-- Takes what the guest has sent. -/
  | draining
  | writing (out : Bytes) (guestClosed : Bool)
  /-- Has written, and wakes next. -/
  | written (guestClosed : Bool)
  /-- Closes the inbox. -/
  | closing
  /-- Has closed the inbox, and wakes next. -/
  | closed
  | ended
  /-- The connect has failed. -/
  | refused
  deriving DecidableEq, Repr

namespace PumpAt

/-- The bytes that the thread has in its hands, on the way to the guest. -/
@[simp] def inward : PumpAt → Bytes
  | .received bytes => bytes
  | _ => []

/-- The bytes on the way to the host. -/
@[simp] def outward : PumpAt → Bytes
  | .writing out _ => out
  | _ => []

@[simp] def wakesIncoming : PumpAt → Bool
  | .settled | .delivered | .closed => true
  | _ => false

/-- The thread wakes the writers when the write it is in has ended. -/
@[simp] def wakesOutgoing : PumpAt → Bool
  | .writing _ _ | .written _ => true
  | _ => false

/-- The thread has ended, or has failed to connect. -/
@[simp] def finished : PumpAt → Bool
  | .ended | .refused => true
  | _ => false

end PumpAt

/-- Where the guest is: in no call, between the look and the park of a poll for the connect, or
in the drop of its socket. -/
inductive GuestAt where
  | free
  | looked (task : Nat)
  /-- Has stored `abort`, and closes the outgoing pipe next. -/
  | aborted
  /-- Wakes the incoming pipe next. -/
  | marked
  /-- Wakes the outgoing pipe next. -/
  | wakes
  deriving DecidableEq, Repr

@[simp] def GuestAt.wakesIncoming : GuestAt → Bool
  | .aborted | .marked => true
  | _ => false

@[simp] def GuestAt.wakesOutgoing : GuestAt → Bool
  | .aborted | .marked | .wakes => true
  | _ => false

/-- What the host answers: it is done, the end of its stream, bytes, nothing in time, or an error
after so many bytes. -/
inductive HostAnswer where
  | ok | eof | quiet
  | bytes (first : UInt8) (rest : Bytes)
  | error (written : Nat)
  deriving DecidableEq, Repr

/-- The streams a guest has: none, those of 0.2, or those of 0.3. -/
inductive Streams where
  | none | p2 | p3
  deriving DecidableEq, Repr

/-- A connection to the real host network, with its thread and its guest.  `fromHost` to `accepted`
record what has been read from the host, read by the guest, written to the host, and accepted from
the guest; `writeFailed` that a write to the host has failed. -/
structure HostConn where
  incoming : Pipe := {}
  outgoing : Pipe := {}
  connected : Bool := false
  failed : Bool := false
  /-- The guest has dropped the socket. -/
  abort : Bool := false
  pump : PumpAt := .connecting
  /-- The write side of the host's socket is shut down. -/
  halfClosed : Bool := false
  guest : GuestAt := .free
  streams : Streams := .none
  /-- The 0.3 sending half is gone. -/
  sendDropped : Bool := false
  fromHost : Bytes := []
  guestRead : Bytes := []
  toHost : Bytes := []
  accepted : Bytes := []
  writeFailed : Bool := false
  deriving DecidableEq, Repr

/-- A step of the thread, or of the guest: a call, or the next step of the call it is in. -/
inductive HostEvent where
  | pump (answer : HostAnswer)
  | start (streams : Streams)
  | pollConnect (task : Nat)
  | goOn
  | read (size : Nat)
  | write (bytes : Bytes)
  | pollReady (task : Nat)
  | pollWritable (task : Nat)
  | produce (n : Nat) (finish : Bool) (task : Nat)
  | consume (src : Bytes) (finish : Bool) (task : Nat)
  | dropSend
  | shutdown
  | drop
  deriving DecidableEq, Repr

namespace HostConn

variable (c : HostConn)

/-- The connection's thread takes a step. -/
def pumped (answer : HostAnswer) : HostConn :=
  match c.pump with
  | .connecting =>
    match answer with
    | .ok => { c with connected := true, pump := .settled }
    | _ => { c with failed := true, pump := .settled }
  | .settled => { c with incoming := c.incoming.wake, pump := if c.connected then .head else .refused }
  | .head => { c with pump := if c.abort then .ended else .asking }
  | .asking => { c with pump := if c.incoming.buf.length < hostBufCap then .reading else .draining }
  | .reading =>
    match answer with
    | .bytes first rest =>
      let bytes := (first :: rest).take hostPumpTmp
      { c with fromHost := c.fromHost ++ bytes, pump := .received bytes }
    | .eof => { c with pump := .closing }
    | .error _ => { c with pump := .closing }
    | _ => { c with pump := .draining }
  | .received bytes =>
    { c with incoming := { c.incoming with buf := c.incoming.buf ++ bytes }, pump := .delivered }
  | .delivered => { c with incoming := c.incoming.wake, pump := .draining }
  | .draining =>
    let drained := { c with outgoing := { c.outgoing with buf := [] } }
    if c.outgoing.buf = [] then { drained with halfClosed := c.halfClosed || c.outgoing.closed, pump := .head }
    else { drained with pump := .writing c.outgoing.buf c.outgoing.closed }
  | .writing out guestClosed =>
    match answer with
    | .error n => { c with toHost := c.toHost ++ out.take n, writeFailed := true, pump := .closing }
    | _ => { c with toHost := c.toHost ++ out, pump := .written guestClosed }
  | .written guestClosed =>
    { c with outgoing := c.outgoing.wake, halfClosed := c.halfClosed || guestClosed, pump := .head }
  | .closing => { c with incoming := { c.incoming with closed := true }, pump := .closed }
  | .closed => { c with incoming := c.incoming.wake, pump := .ended }
  | .ended => c
  | .refused => c

/-- The guest goes on with the call it is in. -/
def goneOn : HostConn :=
  match c.guest with
  | .free => c
  | .looked task => { c with incoming := c.incoming.park task .connect, guest := .free }
  | .aborted => { c with outgoing := { c.outgoing with closed := true }, guest := .marked }
  | .marked => { c with incoming := c.incoming.wake, guest := .wakes }
  | .wakes => { c with outgoing := c.outgoing.wake, guest := .free }

/-- The guest makes a call. -/
def called : HostEvent → HostConn
  | .start streams => if c.connected && !c.failed && !c.abort && c.streams = .none then { c with streams } else c
  | .pollConnect task => if c.connected || c.failed then c else { c with guest := .looked task }
  | .read size =>
    if c.streams = .p2 then
      let (incoming, answer) := c.incoming.read size
      { c with incoming, guestRead := c.guestRead ++ answer.toOption.getD [] }
    else c
  | .write bytes =>
    if c.streams = .p2 then
      let (outgoing, answer) := c.outgoing.write bytes
      { c with outgoing, accepted := c.accepted ++ if answer.toOption.isSome then bytes else [] }
    else c
  | .pollReady task => if c.streams = .p2 then { c with incoming := (c.incoming.pollReady task).1 } else c
  | .pollWritable task => if c.streams = .p2 then { c with outgoing := (c.outgoing.pollWritable task).1 } else c
  | .produce n finish task =>
    if c.streams = .p3 then
      let (incoming, answer) := c.incoming.produce n finish task
      { c with incoming, guestRead := c.guestRead ++ answer.passed }
    else c
  | .consume src finish task =>
    if c.streams = .p3 ∧ c.sendDropped = false then
      let (outgoing, answer) := c.outgoing.consume src finish task
      { c with outgoing, accepted := c.accepted ++ answer.passed }
    else c
  | .dropSend =>
    if c.streams = .p3 then { c with outgoing := { c.outgoing with closed := true }, sendDropped := true } else c
  | .drop => if c.abort then c else { c with abort := true, guest := .aborted }
  -- A shutdown acts on the socket of the fabric stack, not on the connection.
  | .shutdown => c
  | .pump _ => c
  | .goOn => c

/-- The guest makes one call at a time. -/
def act (e : HostEvent) : HostConn :=
  match e with
  | .pump answer => c.pumped answer
  | .goOn => c.goneOn
  | e => if c.guest = .free then c.called e else c

/-- What is waited for has come, or never will. -/
def comes : Awaits → Bool
  | .connect => c.connected || c.failed || c.pump.finished
  | .readable => !c.incoming.buf.isEmpty || c.incoming.closed || c.pump.finished
  | .writable => c.outgoing.closed || decide (c.outgoing.buf.length < hostBufCap) || c.pump.finished

/-- Record of the parked tasks what has come for them. -/
def noted : HostConn :=
  let note (p : Pipe) : Pipe := { p with wakers := p.wakers.map fun w => { w with due := w.due || c.comes w.awaits } }
  { c with incoming := note c.incoming, outgoing := note c.outgoing }

def step (e : HostEvent) : HostConn := (c.act e).noted

/-! ## What a connection owes its guest -/

/-- Somebody is about to wake the incoming pipe. -/
def wakesIncoming : Bool := c.pump.wakesIncoming || c.guest.wakesIncoming

/-- Somebody is about to wake the outgoing pipe. -/
def wakesOutgoing : Bool := c.pump.wakesOutgoing || c.guest.wakesOutgoing

/-- The answers to one turn of the thread in which the host has nothing to say and takes what it is
given. -/
def quietTurn : List HostAnswer := [.ok, .ok, .quiet, .ok, .ok]

/-- Nothing is lost silently, and nobody is left waiting. -/
structure Lossless : Prop where
  inOrder : c.guestRead <+: c.fromHost
  outOrder : c.toHost <+: c.accepted
  /-- What the guest has sent is written, or waits to be; one turn of the thread writes it. -/
  carried : c.writeFailed = false → c.abort = false → c.toHost ++ c.pump.outward ++ c.outgoing.buf = c.accepted ∧
    (c.pump = .head → (quietTurn.foldl pumped c).toHost = c.accepted) ∧ (c.pump.finished = true → c.toHost = c.accepted)
  /-- A write after the end is told that the connection is closed. -/
  told : c.pump.finished = true → c.guest = .free →
    (c.streams = .p2 → c.outgoing.checkWrite = .error () ∧ ∀ bytes, (c.outgoing.write bytes).2 = .error ()) ∧
    (c.streams = .p3 → c.sendDropped = false → ∀ src finish task, (c.outgoing.consume src finish task).2 = .dropped)
  /-- Whoever still waits to read, or for the connect, waits for what has not come, or is woken next. -/
  readersWoken : ∀ w ∈ c.incoming.wakers, w.due = true ∨ c.comes w.awaits = true → c.wakesIncoming = true
  /-- The same of whoever waits to write, while there is somebody. -/
  writersWoken : c.sendDropped = false →
    ∀ w ∈ c.outgoing.wakers, w.due = true ∨ c.comes w.awaits = true → c.wakesOutgoing = true

/-- What a step must not meet: the end of the connection while the guest may still send, or has sent
what is not written, or waits; and a task that parks after the last wake. -/
def Careful : HostEvent → Prop
  | .pump answer =>
    match c.pump with
    -- The thread sees that the socket is dropped.
    | .head => c.abort = true → c.incoming.wakers = [] ∨ c.wakesIncoming = true
    -- A write fails.
    | .writing _ _ => (∃ n, answer = .error n) → c.outgoing.closed = true ∨ c.abort = true ∨ c.outgoing.wakers = []
    -- The host has ended, or a read or a write has failed.
    | .closed => (c.outgoing.closed = true ∨ c.abort = true) ∧
        (c.writeFailed = true ∨ c.abort = true ∨ c.outgoing.buf = [])
    | _ => True
  | .goOn => ∀ task, c.guest = .looked task → (c.connected = false ∧ c.failed = false) ∨ c.wakesIncoming = true
  | .pollReady _ => c.streams = .p2 → c.pump = .ended → c.incoming.buf ≠ [] ∨ c.incoming.closed = true
  | .produce n finish _ => c.streams = .p3 → c.pump = .ended →
      n = 0 ∨ finish = true ∨ c.incoming.buf ≠ [] ∨ c.incoming.closed = true
  | _ => True

/-! ## What every step keeps -/

/-- The bytes are carried in order. -/
structure Carried : Prop where
  inward : c.guestRead ++ c.incoming.buf ++ c.pump.inward = c.fromHost
  outOrder : c.toHost <+: c.accepted
  outward : c.writeFailed = false → c.toHost ++ c.pump.outward ++ c.outgoing.buf = c.accepted
  failed : c.writeFailed = true → c.pump = .closing ∨ c.pump = .closed ∨ c.pump = .ended

/-- The flags and pipes are as the thread and the guest have left them. -/
structure Staged : Prop where
  settled : c.pump ≠ .connecting → c.connected = true ∨ c.failed = true
  started : c.streams ≠ .none → c.connected = true
  refused : c.pump = .refused → c.connected = false
  aborted : c.abort = true → c.outgoing.closed = true ∨ c.guest = .aborted
  unsent : c.sendDropped = true → c.outgoing.closed = true
  left : c.pump = .ended → c.outgoing.closed = true ∨ c.abort = true
  flushed : c.pump = .ended → c.writeFailed = true ∨ c.abort = true ∨ c.outgoing.buf = []

/-- Whoever is parked is parked for what has not come, or is woken next. -/
structure Prompt : Prop where
  readers : ∀ w ∈ c.incoming.wakers, w.due = true ∨ c.comes w.awaits = true → c.wakesIncoming = true
  writers : c.sendDropped = false →
    ∀ w ∈ c.outgoing.wakers, w.due = true ∨ c.comes w.awaits = true → c.wakesOutgoing = true
  shut : c.outgoing.closed = true →
    c.sendDropped = true ∨ c.outgoing.wakers = [] ∨ c.guest = .marked ∨ c.guest = .wakes
  parked : ∀ w ∈ c.outgoing.wakers, w.awaits = .writable
  waiting : ∀ w ∈ c.incoming.wakers, w.awaits ≠ .writable
  idle : c.streams = .none → c.outgoing.wakers = []

variable {c} {e : HostEvent}

theorem Carried.pumped (carried : c.Carried) (answer : HostAnswer) : (c.pumped answer).Carried := by
  have carried' := carried
  obtain ⟨inOrder, order, outOrder, failed⟩ := carried
  simp only [HostConn.pumped]
  cases at_ : c.pump
  case ended | refused => exact carried'
  case connecting | asking | settled | head | delivered | written | closing | closed =>
    simp only [at_] at inOrder outOrder failed ⊢
    try split
    all_goals exact ⟨by simpa using inOrder, order, by simpa using outOrder, by simp_all⟩
  case reading =>
    simp only [at_] at inOrder outOrder failed
    have fine : c.writeFailed ≠ true := fun f => by simpa using failed f
    cases answer with
    | bytes first rest => exact ⟨by simp [← inOrder], order, by simpa using outOrder, fun f => absurd f fine⟩
    | _ => exact ⟨by simpa using inOrder, order, by simpa using outOrder, fun f => absurd f fine⟩
  case received bytes =>
    simp only [at_] at inOrder outOrder failed
    exact ⟨by simpa using inOrder, order, by simpa using outOrder, fun f => by simpa using failed f⟩
  case draining =>
    simp only [at_] at inOrder outOrder failed
    have fine : c.writeFailed ≠ true := fun f => by simpa using failed f
    dsimp only
    split
    · next none' => exact ⟨by simpa using inOrder, order, by simpa [none'] using outOrder, fun f => absurd f fine⟩
    · exact ⟨by simpa using inOrder, order, by simpa using outOrder, fun f => absurd f fine⟩
  case writing out guestClosed =>
    simp only [at_] at inOrder outOrder failed
    have fine : c.writeFailed ≠ true := fun f => by simpa using failed f
    have all := outOrder (Bool.eq_false_iff.2 fine)
    have written : c.toHost ++ out <+: c.accepted := ⟨c.outgoing.buf, all⟩
    cases answer with
    | error n =>
      have part : c.toHost ++ out.take n <+: c.toHost ++ out := List.prefix_append_right_inj _ |>.2 (List.take_prefix ..)
      exact ⟨by simpa using inOrder, part.trans written, nofun, fun _ => .inl rfl⟩
    | _ => exact ⟨by simpa using inOrder, written, by simpa using outOrder, fun f => absurd f fine⟩

theorem Carried.goneOn (carried : c.Carried) : c.goneOn.Carried := by
  have carried' := carried
  obtain ⟨inOrder, order, outOrder, failed⟩ := carried
  simp only [HostConn.goneOn]
  split
  · exact carried'
  all_goals exact ⟨inOrder, order, outOrder, failed⟩

/-- The guest has taken the first bytes of the incoming pipe. -/
theorem Carried.taken (carried : c.Carried) {incoming : Pipe} {bytes : Bytes} (split : c.incoming.buf = bytes ++ incoming.buf) :
    ({ c with incoming, guestRead := c.guestRead ++ bytes } : HostConn).Carried := by
  refine ⟨?_, carried.outOrder, carried.outward, carried.failed⟩
  have inOrder := carried.inward
  rw [split] at inOrder
  simpa using inOrder

/-- The outgoing pipe has taken bytes from the guest. -/
theorem Carried.given (carried : c.Carried) {outgoing : Pipe} {bytes : Bytes} (joined : outgoing.buf = c.outgoing.buf ++ bytes) :
    ({ c with outgoing, accepted := c.accepted ++ bytes } : HostConn).Carried := by
  refine ⟨carried.inward, carried.outOrder.trans (List.prefix_append ..), fun fine => ?_, carried.failed⟩
  rw [← carried.outward fine]
  simp [joined]

/-- The pipes have the bytes they had. -/
theorem Carried.still (carried : c.Carried) {incoming outgoing : Pipe} (inBuf : incoming.buf = c.incoming.buf)
    (outBuf : outgoing.buf = c.outgoing.buf) : ({ c with incoming, outgoing } : HostConn).Carried :=
  ⟨by rw [inBuf]; exact carried.inward, carried.outOrder, by rw [outBuf]; exact carried.outward, carried.failed⟩

theorem Carried.called (carried : c.Carried) (e : HostEvent) : (c.called e).Carried := by
  have same : c.Carried := carried
  obtain ⟨inOrder, order, outOrder, failed⟩ := carried
  cases e <;> simp only [HostConn.called] <;> (try split) <;> try exact same
  case start => exact ⟨inOrder, order, outOrder, failed⟩
  case pollConnect => exact ⟨inOrder, order, outOrder, failed⟩
  case read => exact same.taken (Pipe.read_split ..)
  case write => exact same.given (Pipe.write_joined ..)
  case pollReady => exact same.still (Pipe.pollReady_buf ..) rfl
  case pollWritable => exact same.still rfl (Pipe.pollWritable_buf ..)
  case produce => exact same.taken (Pipe.produce_split ..)
  case consume => exact same.given (Pipe.consume_joined ..)
  case dropSend => exact ⟨inOrder, order, outOrder, failed⟩
  case drop => exact ⟨inOrder, order, outOrder, failed⟩

theorem Carried.act (carried : c.Carried) (e : HostEvent) : (c.act e).Carried := by
  cases e
  case pump answer => exact carried.pumped answer
  case goOn => exact carried.goneOn
  all_goals
    simp only [HostConn.act]
    split
    · exact carried.called _
    · exact carried

/-! ## The flags -/

theorem Staged.pumped (staged : c.Staged) {answer : HostAnswer} (careful : c.Careful (.pump answer)) :
    (c.pumped answer).Staged := by
  have same := staged
  obtain ⟨settled, started, refused, aborted, unsent, left, flushed⟩ := staged
  simp only [HostConn.pumped]
  cases at_ : c.pump
  case ended | refused => exact same
  case closed =>
    simp only [Careful, at_] at careful
    exact ⟨fun _ => settled (by simp [at_]), started, nofun, aborted, unsent, fun _ => careful.1, fun _ => careful.2⟩
  case connecting =>
    cases answer
    all_goals exact ⟨fun _ => by simp, fun some' => by simp [started some'], nofun, aborted, unsent, nofun, nofun⟩
  case settled =>
    have flag := settled (by simp [at_])
    dsimp only
    split
    · exact ⟨fun _ => flag, started, nofun, aborted, unsent, nofun, nofun⟩
    · next missed => exact ⟨fun _ => flag, started, fun _ => by simpa using missed, aborted, unsent, nofun, nofun⟩
  case head =>
    have flag := settled (by simp [at_])
    dsimp only
    split
    · next dropped => exact ⟨fun _ => flag, started, nofun, aborted, unsent, fun _ => .inr dropped, fun _ => .inr (.inl dropped)⟩
    · exact ⟨fun _ => flag, started, nofun, aborted, unsent, nofun, nofun⟩
  all_goals
    have flag := settled (by simp [at_])
    dsimp only
    try split
    all_goals exact ⟨fun _ => flag, started, by simp, aborted, unsent, by simp, by simp⟩

theorem Staged.goneOn (staged : c.Staged) : c.goneOn.Staged := by
  have same := staged
  obtain ⟨settled, started, refused, aborted, unsent, left, flushed⟩ := staged
  simp only [HostConn.goneOn]
  cases at_ : c.guest with
  | free => exact same
  | looked task =>
    refine ⟨settled, started, refused, fun dropped => ?_, unsent, left, flushed⟩
    simpa [at_] using aborted dropped
  | aborted => exact ⟨settled, started, refused, fun _ => .inl rfl, fun _ => rfl, fun _ => .inl rfl, flushed⟩
  | marked =>
    refine ⟨settled, started, refused, fun dropped => ?_, unsent, left, flushed⟩
    simpa [at_] using aborted dropped
  | wakes =>
    refine ⟨settled, started, refused, fun dropped => ?_, unsent, left, flushed⟩
    simpa [at_] using aborted dropped

theorem Staged.called (staged : c.Staged) (free : c.guest = .free) (e : HostEvent) : (c.called e).Staged := by
  have same := staged
  obtain ⟨settled, started, refused, aborted, unsent, left, flushed⟩ := staged
  have dropped : c.abort = true → c.outgoing.closed = true := fun a => by simpa [free] using aborted a
  cases e <;> simp only [HostConn.called] <;> (try split) <;> try exact same
  case start streams can =>
    simp only [Bool.and_eq_true] at can
    exact ⟨settled, fun _ => can.1.1.1, refused, aborted, unsent, left, flushed⟩
  case pollConnect => exact ⟨settled, started, refused, fun a => .inl (dropped a), unsent, left, flushed⟩
  case write bytes _ =>
    refine ⟨settled, started, refused, fun a => .inl (by simp [dropped a]), fun u => by simp [unsent u],
      fun out => by simpa using left out, fun out => ?_⟩
    rcases left out with shut | gone
    · simpa [Pipe.write_shut shut] using flushed out
    · exact .inr (.inl gone)
  case pollWritable =>
    exact ⟨settled, started, refused, fun a => .inl (by simp [dropped a]), fun u => by simp [unsent u],
      fun out => by simpa using left out, fun out => by simpa [Pipe.pollWritable_buf] using flushed out⟩
  case consume src finish task _ =>
    refine ⟨settled, started, refused, fun a => .inl (by simp [dropped a]), fun u => by simp [unsent u],
      fun out => by simpa using left out, fun out => ?_⟩
    rcases left out with shut | gone
    · simpa [Pipe.consume_shut _ _ shut] using flushed out
    · exact .inr (.inl gone)
  case dropSend => exact ⟨settled, started, refused, fun _ => .inl rfl, fun _ => rfl, fun _ => .inl rfl, flushed⟩
  case drop =>
    exact ⟨settled, started, refused, fun _ => .inr rfl, unsent, fun _ => .inr rfl, fun _ => .inr (.inl rfl)⟩
  all_goals exact ⟨settled, started, refused, aborted, unsent, left, flushed⟩

theorem Staged.act (staged : c.Staged) {e : HostEvent} (careful : c.Careful e) : (c.act e).Staged := by
  cases e
  case pump answer => exact staged.pumped careful
  case goOn => exact staged.goneOn
  all_goals
    simp only [HostConn.act]
    split
    · next free => exact staged.called free _
    · exact staged

/-! ## The wakers -/

/-- A guest that is about to wake the writers. -/
theorem wakesOutgoing_of_guest (wakes : c.guest.wakesOutgoing = true) : c.wakesOutgoing = true := by
  rw [wakesOutgoing, wakes, Bool.or_true]

/-- Once the connection is left, the writers have been woken or are about to be. -/
theorem Prompt.leaving (prompt : c.Prompt) (staged : c.Staged) (left : c.outgoing.closed = true ∨ c.abort = true)
    (sends : c.sendDropped = false) : c.outgoing.wakers = [] ∨ c.guest.wakesOutgoing = true := by
  have shut : c.outgoing.closed = true → c.outgoing.wakers = [] ∨ c.guest.wakesOutgoing = true := by
    intro closed
    rcases prompt.shut closed with gone | none' | at_ | at_
    · simp [sends] at gone
    · exact .inl none'
    · exact .inr (by simp [at_])
    · exact .inr (by simp [at_])
  rcases left with closed | dropped
  · exact shut closed
  · rcases staged.aborted dropped with closed | at_
    · exact shut closed
    · exact .inr (by simp [at_])

/-- The thread steps on, and neither pipe nor what is waited for changes. -/
theorem Prompt.move (prompt : c.Prompt) (c' : HostConn) (incoming : c'.incoming = c.incoming) (outgoing : c'.outgoing = c.outgoing)
    (same : ∀ a, c'.comes a = c.comes a) (guest : c'.guest = c.guest) (streams : c'.streams = c.streams)
    (sends : c'.sendDropped = c.sendDropped) (wakesIn : c.wakesIncoming = true → c'.wakesIncoming = true)
    (wakesOut : c.wakesOutgoing = true → c'.wakesOutgoing = true) : c'.Prompt where
  readers w member due := wakesIn (prompt.readers w (incoming ▸ member) (by rwa [same] at due))
  writers alive w member due := wakesOut (prompt.writers (sends ▸ alive) w (outgoing ▸ member) (by rwa [same] at due))
  shut closed := by
    rw [sends, outgoing, guest]
    exact prompt.shut (outgoing ▸ closed)
  parked := outgoing ▸ prompt.parked
  waiting := incoming ▸ prompt.waiting
  idle none' := by
    rw [outgoing]
    exact prompt.idle (streams ▸ none')

/-- The writers that something has come for are about to be woken as before, where their pipe and
the guest are left alone. -/
theorem Prompt.writersKept (prompt : c.Prompt) (c' : HostConn) (outgoing : c'.outgoing = c.outgoing)
    (guest : c'.guest = c.guest) (sends : c'.sendDropped = c.sendDropped) (runs : c'.pump.finished = c.pump.finished)
    (quiet : c.pump.wakesOutgoing = false) : c'.sendDropped = false →
      ∀ w ∈ c'.outgoing.wakers, w.due = true ∨ c'.comes w.awaits = true → c'.wakesOutgoing = true := by
  intro alive w member due
  rw [outgoing] at member
  have come : c'.comes w.awaits = c.comes w.awaits := by rw [prompt.parked w member, comes, comes, outgoing, runs]
  have wakes := prompt.writers (sends ▸ alive) w member (come ▸ due)
  rw [wakesOutgoing, quiet, Bool.false_or] at wakes
  rw [wakesOutgoing, guest, wakes, Bool.or_true]

theorem Prompt.pumped (prompt : c.Prompt) (staged : c.Staged) {answer : HostAnswer} (careful : c.Careful (.pump answer)) :
    (c.pumped answer).Prompt := by
  have same := prompt
  obtain ⟨readers, writers, shut, parked, waiting, idle⟩ := prompt
  simp only [HostConn.pumped]
  cases at_ : c.pump
  case ended | refused => exact same
  case asking =>
    refine Prompt.move same { c with pump := _ } rfl rfl (fun a => ?_) rfl rfl rfl ?_ ?_
    · split <;> cases a <;> simp [comes, at_]
    · split <;> simp [wakesIncoming, at_]
    · split <;> simp [wakesOutgoing, at_]
  case reading =>
    have on : ∀ (fromHost : Bytes) (pump : PumpAt), pump.finished = false → pump.wakesIncoming = false →
        pump.wakesOutgoing = false → ({ c with fromHost, pump } : HostConn).Prompt := by
      intro fromHost pump runs quietIn quietOut
      refine Prompt.move same { c with fromHost, pump } rfl rfl (fun a => ?_) rfl rfl rfl ?_ ?_
      · cases a <;> simp only [comes, at_, runs] <;> rfl
      · simp only [wakesIncoming, at_, quietIn]
        exact id
      · simp only [wakesOutgoing, at_, quietOut]
        exact id
    cases answer with
    | bytes first rest => exact on _ (.received _) rfl rfl rfl
    | _ => exact on _ _ rfl rfl rfl
  case head =>
    dsimp only
    split
    · next dropped =>
        -- The socket is dropped: nobody is left on either pipe, or the drop wakes them.
        simp only [Careful, at_] at careful
        refine ⟨fun w member _ => ?_, fun alive w member _ => ?_, shut, parked, waiting, idle⟩
        · rcases careful dropped with none' | wakes
          · simp [none'] at member
          · simpa [wakesIncoming, at_] using wakes
        · rcases same.leaving staged (.inr dropped) alive with none' | wakes
          · simp [none'] at member
          · exact wakesOutgoing_of_guest wakes
    · exact same.move _ rfl rfl (fun a => by cases a <;> simp [comes, at_]) rfl rfl rfl
        (by simp [wakesIncoming, at_]) (by simp [wakesOutgoing, at_])
  case connecting =>
    dsimp only
    split
    all_goals
      exact ⟨fun _ _ _ => by simp [wakesIncoming], same.writersKept _ rfl rfl rfl (by simp [at_]) (by simp [at_]), shut, parked,
        waiting, idle⟩
  case settled =>
    dsimp only
    split
    · exact ⟨nofun, same.writersKept _ rfl rfl rfl (by simp [at_]) (by simp [at_]), shut, parked, nofun, idle⟩
    · next missed =>
        have none' : c.outgoing.wakers = [] := idle (by_contra fun some' => missed (staged.started some'))
        exact ⟨nofun, fun _ w member => by simp [none'] at member, shut, parked, nofun, idle⟩
  case received bytes =>
    exact ⟨fun _ _ _ => by simp [wakesIncoming], same.writersKept _ rfl rfl rfl (by simp [at_]) (by simp [at_]), shut, parked,
      waiting, idle⟩
  case delivered =>
    exact ⟨nofun, same.writersKept _ rfl rfl rfl (by simp [at_]) (by simp [at_]), shut, parked, nofun, idle⟩
  case closing =>
    exact ⟨fun _ _ _ => by simp [wakesIncoming], same.writersKept _ rfl rfl rfl (by simp [at_]) (by simp [at_]), shut, parked,
      waiting, idle⟩
  case draining =>
    have kept : ∀ w ∈ c.incoming.wakers, ∀ pump : PumpAt, pump.finished = false → w.due = true ∨
        ({ c with outgoing := { c.outgoing with buf := [] }, pump } : HostConn).comes w.awaits = true →
          c.guest.wakesIncoming = true := by
      intro w member pump runs due
      have was : w.due = true ∨ c.comes w.awaits = true := by
        have reads := waiting w member
        cases await : w.awaits <;> simp_all [comes]
      simpa [wakesIncoming, at_] using readers w member was
    dsimp only
    split
    · next none' =>
        refine ⟨fun w member due => ?_, fun alive w member due => ?_, shut, parked, waiting, idle⟩
        · simpa [wakesIncoming] using kept w member .head rfl due
        · have wakes := writers alive w member (by simpa [parked w member, comes, at_, none'] using due)
          simpa [wakesOutgoing, at_] using wakes
    · exact ⟨fun w member due => by simpa [wakesIncoming] using kept w member (.writing _ _) rfl due,
        fun _ _ _ _ => by simp [wakesOutgoing], shut, parked, waiting, idle⟩
  case writing out guestClosed =>
    simp only [Careful, at_] at careful
    dsimp only
    split
    · next n =>
        refine ⟨fun w member due => ?_, fun alive w member _ => ?_, shut, parked, waiting, idle⟩
        · have reads := waiting w member
          have wakes := readers w member (by cases await : w.awaits <;> simp_all [comes])
          simpa [wakesIncoming, at_] using wakes
        · have gone : c.outgoing.wakers = [] ∨ c.guest.wakesOutgoing = true := by
            rcases careful ⟨n, rfl⟩ with closed | dropped | none'
            · exact same.leaving staged (.inl closed) alive
            · exact same.leaving staged (.inr dropped) alive
            · exact .inl none'
          rcases gone with none' | wakes
          · simp [none'] at member
          · exact wakesOutgoing_of_guest wakes
    · exact same.move _ rfl rfl (fun a => by cases a <;> simp [comes, at_]) rfl rfl rfl
        (by simp [wakesIncoming, at_]) (by simp [wakesOutgoing, at_])
  case written guestClosed =>
    refine ⟨fun w member due => ?_, fun _ => nofun, fun _ => .inr (.inl rfl), nofun, waiting, fun _ => rfl⟩
    have reads := waiting w member
    have wakes := readers w member (by cases await : w.awaits <;> simp_all [comes])
    simpa [wakesIncoming, at_] using wakes
  case closed =>
    simp only [Careful, at_] at careful
    refine ⟨nofun, fun alive w member _ => ?_, shut, parked, nofun, idle⟩
    rcases same.leaving staged careful.1 alive with none' | wakes
    · simp [none'] at member
    · exact wakesOutgoing_of_guest wakes

theorem Prompt.goneOn (prompt : c.Prompt) (staged : c.Staged) (careful : c.Careful .goOn) : c.goneOn.Prompt := by
  have same := prompt
  obtain ⟨readers, writers, shut, parked, waiting, idle⟩ := prompt
  simp only [HostConn.goneOn]
  cases at_ : c.guest with
  | free => exact same
  | looked task =>
    simp only [Careful, at_] at careful
    refine ⟨fun w member due => ?_, fun alive w member due => ?_, fun closed => ?_, parked, fun w member => ?_, idle⟩
    · simp only [Pipe.park, List.mem_append, List.mem_singleton] at member
      rcases member with old | rfl
      · have reads := waiting w old
        have wakes := readers w old (by cases await : w.awaits <;> simp_all [comes])
        simpa [wakesIncoming, at_] using wakes
      · rcases careful task rfl with ⟨noConnect, noFail⟩ | wakes
        · have early : c.pump = .connecting := by
            by_contra late
            simpa [noConnect, noFail] using staged.settled late
          simp [comes, noConnect, noFail, early] at due
        · simpa [wakesIncoming, at_] using wakes
    · have wakes := writers alive w member (by simpa [parked w member, comes] using due)
      simpa [wakesOutgoing, at_] using wakes
    · rcases shut closed with gone | none' | marked | wakes
      · exact .inl gone
      · exact .inr (.inl none')
      · simp [at_] at marked
      · simp [at_] at wakes
    · simp only [Pipe.park, List.mem_append, List.mem_singleton] at member
      rcases member with old | rfl
      · exact waiting w old
      · simp
  | aborted =>
    exact ⟨fun w member _ => by simp [wakesIncoming], fun _ _ _ _ => by simp [wakesOutgoing],
      fun _ => .inr (.inr (.inl rfl)), parked, waiting, idle⟩
  | marked =>
    exact ⟨nofun, fun _ _ _ _ => by simp [wakesOutgoing], fun _ => .inr (.inr (.inr rfl)), parked, nofun, idle⟩
  | wakes =>
    refine ⟨fun w member due => ?_, fun _ => nofun, fun _ => .inr (.inl rfl), nofun, waiting, fun _ => rfl⟩
    have reads := waiting w member
    have wakes := readers w member (by cases await : w.awaits <;> simp_all [comes])
    simpa [wakesIncoming, at_] using wakes

/-- The guest takes bytes from the incoming pipe, or parks on it while the thread runs. -/
theorem Prompt.reads (prompt : c.Prompt) {incoming : Pipe} {guestRead : Bytes}
    (pipe : c.incoming.Taken incoming ∨ c.incoming.buf = [] ∧ c.incoming.closed = false ∧ c.pump.finished = false ∧
      ∃ task, incoming = c.incoming.park task .readable) :
    ({ c with incoming, guestRead } : HostConn).Prompt := by
  obtain ⟨readers, writers, shut, parked, waiting, idle⟩ := prompt
  refine ⟨fun w member due => ?_, fun alive w member due => ?_, shut, parked, fun w member => ?_, idle⟩
  · rcases pipe with ⟨wakers, closed, buf⟩ | ⟨none', stays, runs, task, rfl⟩
    · have reads := waiting w (wakers ▸ member)
      refine readers w (wakers ▸ member) (due.imp_right fun come => ?_)
      cases await : w.awaits with
      | connect => simpa only [comes, await] using come
      | readable =>
        simp only [comes, await, closed, Bool.or_eq_true, Bool.not_eq_true', List.isEmpty_eq_false_iff] at come ⊢
        exact come.imp_left (Or.imp_left buf)
      | writable => exact absurd await reads
    · simp only [Pipe.park, List.mem_append, List.mem_singleton] at member
      rcases member with old | rfl
      · exact readers w old due
      · simp only [comes, Pipe.park, none', stays, runs, Bool.false_eq_true, false_or] at due
        exact nomatch due
  · exact writers alive w member (by simpa only [parked w member, comes] using due)
  · rcases pipe with ⟨wakers, _, _⟩ | ⟨_, _, _, task, rfl⟩
    · exact waiting w (wakers ▸ member)
    · simp only [Pipe.park, List.mem_append, List.mem_singleton] at member
      rcases member with old | rfl
      · exact waiting w old
      · exact nofun

/-- The guest gives bytes to the outgoing pipe, or parks on it while the thread runs. -/
theorem Prompt.writes (prompt : c.Prompt) (some' : c.streams ≠ .none) {outgoing : Pipe} {accepted : Bytes}
    (pipe : c.outgoing.Given outgoing ∨ c.outgoing.closed = false ∧ hostBufCap ≤ c.outgoing.buf.length ∧
      c.pump.finished = false ∧ ∃ task, outgoing = c.outgoing.park task .writable) :
    ({ c with outgoing, accepted } : HostConn).Prompt := by
  obtain ⟨readers, writers, shut, parked, waiting, idle⟩ := prompt
  refine ⟨fun w member due => ?_, fun alive w member due => ?_, fun closed' => ?_, fun w member => ?_, waiting,
    fun none' => absurd none' some'⟩
  · have reads := waiting w member
    exact readers w member (by cases await : w.awaits <;> simp_all [comes])
  · rcases pipe with ⟨wakers, closed, buf⟩ | ⟨stays, full, runs, task, rfl⟩
    · have writes := parked w (wakers ▸ member)
      refine writers alive w (wakers ▸ member) (due.imp_right fun come => ?_)
      simp only [comes, writes, closed, Bool.or_eq_true, decide_eq_true_eq] at come ⊢
      exact come.imp_left (Or.imp_right buf.trans_lt)
    · simp only [Pipe.park, List.mem_append, List.mem_singleton] at member
      rcases member with old | rfl
      · exact writers alive w old due
      · simp only [comes, Pipe.park, stays, runs, Nat.not_lt.2 full, Bool.false_eq_true, false_or] at due
        exact nomatch due
  · rcases pipe with ⟨wakers, closed, _⟩ | ⟨stays, _, _, task, rfl⟩
    · rw [wakers]
      exact shut (closed ▸ closed')
    · simp [stays] at closed'
  · rcases pipe with ⟨wakers, _, _⟩ | ⟨_, _, _, task, rfl⟩
    · exact parked w (wakers ▸ member)
    · simp only [Pipe.park, List.mem_append, List.mem_singleton] at member
      rcases member with old | rfl
      · exact parked w old
      · rfl

/-- A guest with streams parks on an open pipe: the thread has not failed to connect, and it may have
ended only where `ends` says so. -/
theorem Staged.runs (staged : c.Staged) (some' : c.streams ≠ .none) (ends : c.pump ≠ .ended) : c.pump.finished = false := by
  have connected := staged.started some'
  cases at_ : c.pump <;> try rfl
  · exact absurd at_ ends
  · simp [staged.refused at_] at connected

theorem Staged.writes (staged : c.Staged) (free : c.guest = .free) (opened : c.outgoing.closed = false) : c.pump ≠ .ended := by
  intro ended
  have shut : c.abort = true → c.outgoing.closed = true := fun dropped => by simpa [free] using staged.aborted dropped
  have closed := (staged.left ended).elim id shut
  simp [opened] at closed

theorem Prompt.called (prompt : c.Prompt) (staged : c.Staged) (free : c.guest = .free) (careful : c.Careful e) :
    (c.called e).Prompt := by
  have same := prompt
  obtain ⟨readers, writers, shut, parked, waiting, idle⟩ := prompt
  have shut' : c.outgoing.closed = true → c.sendDropped = true ∨ c.outgoing.wakers = [] := fun closed => by
    simpa [free] using shut closed
  cases e <;> simp only [HostConn.called] <;> (try split) <;> try exact same
  case start streams can =>
    have none' : c.streams = .none := by simpa using (Bool.and_eq_true_iff.1 can).2
    exact ⟨readers, writers, shut, parked, waiting, fun _ => idle none'⟩
  case pollConnect =>
    refine ⟨fun w member due => ?_, fun alive w member due => ?_, fun closed => ?_, parked, waiting, idle⟩
    · simpa [wakesIncoming, free] using readers w member due
    · simpa [wakesOutgoing, free] using writers alive w member due
    · exact (shut' closed).imp_right .inl
  case read size _ => exact same.reads (.inl (Pipe.read_taken ..))
  case write bytes at_ => exact same.writes (by simp [at_]) (.inl (Pipe.write_given ..))
  case pollReady task at_ =>
    refine same.reads ?_
    rcases c.incoming.pollReady_cases task with still | ⟨none', stays, parks⟩
    · exact .inl (still.symm ▸ ⟨rfl, rfl, id⟩)
    · refine .inr ⟨none', stays, staged.runs (by simp [at_]) fun ended => ?_, task, parks⟩
      simpa [none', stays] using careful at_ ended
  case pollWritable task at_ =>
    refine same.writes (by simp [at_]) ?_
    rcases c.outgoing.pollWritable_cases task with still | ⟨stays, full, parks⟩
    · exact .inl (still.symm ▸ ⟨rfl, rfl, le_rfl⟩)
    · exact .inr ⟨stays, full, staged.runs (by simp [at_]) (staged.writes free stays), task, parks⟩
  case produce n finish task at_ =>
    refine same.reads ?_
    rcases c.incoming.produce_cases finish task n with taken | ⟨some', goes, none', stays, parks⟩
    · exact .inl taken
    · refine .inr ⟨none', stays, staged.runs (by simp [at_]) fun ended => ?_, task, parks⟩
      simpa [some', goes, none', stays] using careful at_ ended
  case consume src finish task at_ =>
    refine same.writes (by simp [at_]) ?_
    rcases c.outgoing.consume_cases finish task src with given | ⟨stays, full, parks⟩
    · exact .inl given
    · exact .inr ⟨stays, full, staged.runs (by simp [at_]) (staged.writes free stays), task, parks⟩
  case dropSend =>
    refine ⟨fun w member due => ?_, nofun, fun _ => .inl rfl, parked, waiting, idle⟩
    have reads := waiting w member
    exact readers w member (by cases await : w.awaits <;> simp_all [comes])
  case drop =>
    exact ⟨fun _ _ _ => by simp [wakesIncoming], fun _ _ _ _ => by simp [wakesOutgoing],
      fun closed => (shut' closed).imp_right .inl, parked, waiting, idle⟩

theorem Prompt.act (prompt : c.Prompt) (staged : c.Staged) (careful : c.Careful e) : (c.act e).Prompt := by
  cases e
  case pump answer => exact prompt.pumped staged careful
  case goOn => exact prompt.goneOn staged careful
  all_goals
    simp only [HostConn.act]
    split
    · next free => exact prompt.called staged free careful
    · exact prompt

/-! ## The record of what is due -/

@[simp] theorem noted_comes (a : Awaits) : c.noted.comes a = c.comes a := by cases a <;> rfl

theorem noted_mem {p : Pipe} {w : Waker} (member : w ∈ p.wakers.map fun w => { w with due := w.due || c.comes w.awaits }) :
    ∃ was ∈ p.wakers, was.awaits = w.awaits ∧ (w.due = true → was.due = true ∨ c.comes was.awaits = true) := by
  obtain ⟨was, mem, rfl⟩ := List.mem_map.1 member
  exact ⟨was, mem, rfl, fun due => by simpa using due⟩

theorem Carried.noted (carried : c.Carried) : c.noted.Carried :=
  ⟨carried.inward, carried.outOrder, carried.outward, carried.failed⟩

theorem Staged.noted (staged : c.Staged) : c.noted.Staged :=
  ⟨staged.settled, staged.started, staged.refused, staged.aborted, staged.unsent, staged.left, staged.flushed⟩

theorem Prompt.noted (prompt : c.Prompt) : c.noted.Prompt where
  readers w member due := by
    obtain ⟨was, mem, await, recorded⟩ := noted_mem member
    refine prompt.readers was mem (due.elim recorded fun come => .inr ?_)
    rwa [await, ← noted_comes]
  writers alive w member due := by
    obtain ⟨was, mem, await, recorded⟩ := noted_mem member
    refine prompt.writers alive was mem (due.elim recorded fun come => .inr ?_)
    rwa [await, ← noted_comes]
  shut closed := by
    rcases prompt.shut closed with gone | none' | marked | wakes
    · exact .inl gone
    · exact .inr (.inl (by simp [HostConn.noted, none']))
    · exact .inr (.inr (.inl marked))
    · exact .inr (.inr (.inr wakes))
  parked w member := by
    obtain ⟨was, mem, await, _⟩ := noted_mem member
    exact await ▸ prompt.parked was mem
  waiting w member := by
    obtain ⟨was, mem, await, _⟩ := noted_mem member
    exact await ▸ prompt.waiting was mem
  idle none' := by simp [HostConn.noted, prompt.idle none']

/-! ## Runs -/

variable (c) in
/-- What every step of a careful run keeps. -/
structure Kept : Prop where
  carried : c.Carried
  staged : c.Staged
  prompt : c.Prompt
  /-- Nothing is sent before the streams are there. -/
  early : c.streams = .none → c.outgoing.buf = []

theorem early_act (early : c.streams = .none → c.outgoing.buf = []) (e : HostEvent) :
    (c.act e).streams = .none → (c.act e).outgoing.buf = [] := by
  cases e
  case pump answer =>
    simp only [act, pumped]
    split <;> (try split) <;> first | exact early | exact fun _ => rfl
  case goOn =>
    simp only [act, goneOn]
    split <;> exact early
  all_goals
    simp only [act, called]
    split
    · first
      | exact early
      | split <;> first | exact early | simp_all
    · exact early

theorem Kept.step (kept : c.Kept) (careful : c.Careful e) : (c.step e).Kept where
  carried := (kept.carried.act e).noted
  staged := (kept.staged.act careful).noted
  prompt := (kept.prompt.act kept.staged careful).noted
  early := early_act kept.early e

theorem kept_start : ({} : HostConn).Kept :=
  ⟨⟨rfl, List.prefix_rfl, fun _ => rfl, nofun⟩, ⟨fun away => absurd rfl away, fun away => absurd rfl away, nofun, nofun, nofun, nofun, nofun⟩,
    ⟨nofun, fun _ => nofun, nofun, nofun, nofun, fun _ => rfl⟩, fun _ => rfl⟩

/-- A turn of the thread writes what it finds. -/
theorem quietTurn_writes (at_ : c.pump = .head) (stays : c.abort = false) :
    (quietTurn.foldl HostConn.pumped c).toHost = c.toHost ++ c.outgoing.buf := by
  by_cases room : c.incoming.buf.length < hostBufCap <;> by_cases none' : c.outgoing.buf = [] <;>
    simp [quietTurn, HostConn.pumped, at_, stays, room, none']

theorem Kept.lossless (kept : c.Kept) : c.Lossless := by
  obtain ⟨carried, staged, prompt, early⟩ := kept
  have connects : c.streams ≠ .none → c.pump ≠ .refused := fun some' at_ => by
    simpa [staged.started some'] using staged.refused at_
  refine ⟨?_, carried.outOrder, fun fine stays => ⟨carried.outward fine, fun at_ => ?_, fun ended => ?_⟩, fun ended free => ?_,
    prompt.readers, prompt.writers⟩
  · rw [← carried.inward, List.append_assoc]
    exact List.prefix_append ..
  · rw [quietTurn_writes at_ stays, ← carried.outward fine, at_]
    simp
  · have flushed : c.outgoing.buf = [] := by
      cases at_ : c.pump <;> simp only [at_, PumpAt.finished, Bool.false_eq_true] at ended
      · simpa [fine, stays] using staged.flushed at_
      · exact early (by_contra fun some' => connects some' at_)
    have none' : c.pump.outward = [] := by
      cases at_ : c.pump <;> simp [at_] at ended ⊢
    have all := carried.outward fine
    rw [flushed, none'] at all
    simpa using all
  · have shut : c.streams ≠ .none → c.outgoing.closed = true := by
      intro some'
      cases at_ : c.pump <;> simp only [at_, PumpAt.finished, Bool.false_eq_true] at ended
      · exact (staged.left at_).elim id fun dropped => by simpa [free] using staged.aborted dropped
      · exact absurd at_ (connects some')
    refine ⟨fun p2 => ?_, fun p3 _ src finish task => ?_⟩
    · have closed := shut (by simp [p2])
      exact ⟨by simp [Pipe.checkWrite, closed], fun bytes => by rw [Pipe.write_shut closed]⟩
    · rw [Pipe.consume_shut _ _ (shut (by simp [p3]))]

/-- A gateway connection is lossless throughout every run in which it is left only once the guest
has closed its side, and nobody parks after the last wake. -/
theorem gateway_lossless {events : List HostEvent} (run : Along step Careful {} events) :
    ∀ done, done <+: events → (done.foldl step {}).Lossless := by
  rintro done ⟨rest, rfl⟩
  exact (run.append.1.keeps (fun _ _ careful kept => kept.step careful) kept_start).lossless

/-! ## Poles -/

section Poles

/-- A guest that asks, is answered, and drops its socket. -/
def conversed : List HostEvent :=
  [.pollConnect 0, .goOn, .pump .ok, .pump .ok, .start .p2, .write [71], .pollReady 1, .pump .ok, .pump .ok, .pump .quiet,
    .pump .ok, .pump .ok, .pump .ok, .pump .ok, .pump .ok, .pump (.bytes 72 [73]), .pump .ok, .pump .ok, .read 2, .drop,
    .goOn, .goOn, .goOn, .pump .ok, .pump .ok]

theorem conversed_careful : Along step Careful {} conversed := by
  refine ⟨trivial, fun _ _ => .inl ⟨rfl, rfl⟩, trivial, trivial, trivial, trivial, fun _ => ?_, ?_, trivial, trivial, trivial,
    nofun, trivial, ?_, trivial, trivial, trivial, trivial, trivial, trivial, nofun, nofun, nofun, trivial, fun _ => .inl rfl,
    trivial⟩
  -- The thread runs when the guest parks, and the socket is not dropped in the first two turns.
  all_goals exact fun here => absurd here (by decide)

theorem gateway_lossless_conversed : (conversed.foldl step {}).Lossless ∧
    (conversed.foldl step {}).toHost = [71] ∧ (conversed.foldl step {}).guestRead = [72, 73] :=
  ⟨gateway_lossless conversed_careful _ List.prefix_rfl, by decide +kernel, by decide +kernel⟩

/-- The host ends its stream while the thread reads, and the guest has just written. -/
def hostEnded : HostConn :=
  [.pump .ok, .pump .ok, .start .p2, .pump .ok, .pump .ok, .write [71], .pump .eof, .pump .ok, .pump .ok].foldl step {}

/-- The connect settles, and its wake is over, between the look of a poll and its park. -/
def settledUnseen : HostConn := [.pollConnect 0, .pump .ok, .pump .ok, .goOn].foldl step {}

/-- What the guest has written is lost and its next write is accepted; a task sleeps on a connection
that is there. -/
theorem gateway_loses :
    (¬ hostEnded.Lossless ∧ hostEnded.pump = .ended ∧ hostEnded.accepted = [71] ∧ hostEnded.toHost = [] ∧
      hostEnded.writeFailed = false ∧ hostEnded.abort = false ∧ (hostEnded.outgoing.write [72]).2.toOption = some ()) ∧
    (¬ settledUnseen.Lossless ∧ settledUnseen.connected = true ∧ settledUnseen.wakesIncoming = false ∧
      settledUnseen.incoming.wakers = [{ task := 0, awaits := .connect, due := true }]) := by
  refine ⟨⟨fun lossless => ?_, by decide +kernel⟩, fun lossless => ?_, by decide +kernel⟩
  · have all := (lossless.carried (by decide +kernel) (by decide +kernel)).2.2 (by decide +kernel)
    exact absurd all (by decide +kernel)
  · have woken := lossless.readersWoken { task := 0, awaits := .connect, due := true } (by decide +kernel) (.inl rfl)
    exact absurd woken (by decide +kernel)

end Poles

end HostConn

end Wk.Fabric
