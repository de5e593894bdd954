/-
# Wk.Fabric.Readiness -- a pollable of a listener, and what accept finds

A pollable is a snapshot: it watches the sockets that its TCP socket had when it was obtained,
and is ready as soon as one of them is gone or out of the handshake.  An accept looks at the
sockets the listener has now, and takes one that is established.

* `Rests`: an operation leaves every socket that was out of the handshake out of it.
* `Watching`: a pollable watches what its socket has, or is ready for good.
* `readiness_agrees`: along a run that opens no socket under a pollable, a pollable is ready when
  an accept would return a connection, and where every listener that has lost a slot has a
  connection to accept, an accept on a ready listener does not put the guest off.

Poles: a pollable from before the listen misses a connection, and a peer that has closed its
side leaves the listener ready with nothing to accept.
-/
import Wk.Fabric.Frames
import Wk.Fabric.Listeners

namespace Wk.Fabric

open Wk.Library

set_option autoImplicit false

/-! ## Readiness -/

section Stack

variable {S : Type} (lib : SocketLib S)

namespace SocketStack

/-- A poll of one socket for an event: it is over when the socket is gone, or out of the
handshake. -/
def roused (st : SocketStack S) (c : Claim) : Bool :=
  !st.isCurrent c.1 c.2 || !(st.sock c.1).any fun s => (lib.state s).handshaking

/-- A poll for an event on the first of a pool's sockets. -/
def eventReady (st : SocketStack S) (pool : List Claim) : Bool := pool.any (st.roused lib)

/-- A connection that `accept` takes: established, to a peer of the listener's family. -/
def acceptable (st : SocketStack S) (family : IpFamily) (c : Claim) : Bool :=
  st.isCurrent c.1 c.2 && (st.sock c.1).any fun s =>
    (lib.state s).peered && (lib.remoteEndpoint s).all fun ep => IpFamily.of ep.1 = family

/-- Every socket is in a slot that the set has grown to. -/
def Bounded (st : SocketStack S) : Prop := ∀ h, (st.sock h).isSome = true → h < st.size

end SocketStack

/-- A node with the pollables that its 0.2 TCP sockets have given out, each with the place of its
socket.  A socket that connects over a host gateway gives out one that follows the connection
there. -/
structure Watched (S : Type) where
  node : NetNode S
  obtained : List (Nat × Option Pollable) := []

/-- The pollables that a call gives out. -/
def NetNode.obtains (w : NetNode S) : SocketCall S → List (Nat × Option Pollable)
  | .subscribe i =>
    match w.resource i with
    | some (.tcp s) => [(i, s.subscribe)]
    | _ => []
  | _ => []

/-- The place of the 0.2 socket that a call tells to listen. -/
def SocketCall.listensOn : SocketCall S → Option Nat
  | .startListen i => some i
  | _ => none

/-- What the library does to a socket by itself takes none back into the handshake. -/
def SocketCall.Settled : SocketCall S → Prop
  | .io _ f => ∀ s, (lib.state (f s)).handshaking = true → (lib.state s).handshaking = true
  | .poll f => ∀ h s, (lib.state (f h s)).handshaking = true → (lib.state s).handshaking = true
  | _ => True

/-- No socket that is closed or aborted goes into the handshake; a bind is of a UDP socket. -/
structure SocketLib.Settles : Prop where
  close : ∀ s, (lib.state (lib.close s)).handshaking = true → (lib.state s).handshaking = true
  abort : ∀ s, (lib.state (lib.abort s)).handshaking = true → (lib.state s).handshaking = true
  bind : ∀ s n s', lib.bind s n = some s' → (lib.state s').handshaking = true → (lib.state s).handshaking = true

namespace Watched

def step (x : Watched S) (call : SocketCall S) : Watched S where
  node := x.node.step lib call
  obtained := x.obtained ++ x.node.obtains call

/-- The two sides agree: `gateway` tells which of the host connections have settled. -/
structure Agrees (gateway : Nat → Bool) (x : Watched S) : Prop where
  wakes : ∀ k i (p : Option Pollable), x.obtained[k]? = some (i, p) → ∀ s, x.node.resource i = some (.tcp s) → ∀ conn,
    (s.accept lib x.node.stack).2.2 = .ok conn →
      (p.elim (gateway k) fun q => x.node.stack.eventReady lib q.pool) = true
  fruitful : ∀ i s, x.node.resource i = some (.tcp s) → s.listening = true → ∀ q, s.subscribe = some q →
    x.node.stack.eventReady lib q.pool = true → (s.accept lib x.node.stack).2.2 ≠ .error .wouldBlock

/-- A call that opens a socket leaves ready what does not watch its own socket any more: the
pollables of a socket that is told to listen, and those from before an accept or a listen. -/
def Orderly (x : Watched S) (call : SocketCall S) : Prop :=
  ∀ a ∈ x.node.attempt lib call, x.node.stack.takes a = true → ∀ i q, (i, some q) ∈ x.obtained →
    ∀ s, x.node.resource i = some (.tcp s) → call.listensOn = some i ∨ q.pool ≠ s.pool →
      ∃ c ∈ q.pool, x.node.stack.roused lib c = true ∧ (c.1 = a.handle → x.node.stack.isCurrent c.1 c.2 = false)

/-- A listener one of whose sockets is gone or out of the handshake has a connection to accept; a
socket that connects over a host gateway has none. -/
structure Served (x : Watched S) : Prop where
  listener : ∀ i s, x.node.resource i = some (.tcp s) → s.listening = true → s.host = false →
    x.node.stack.eventReady lib s.pool = true → s.pool.any (x.node.stack.acceptable lib s.family) = true
  gateway : ∀ i, (i, none) ∈ x.obtained → ∀ s, x.node.resource i = some (.tcp s) →
    x.node.stack.Quiet lib TcpState.peered s.pool

end Watched

/-! ## What stays out of the handshake -/

/-- What operations make of a stack that take no socket back into the handshake, but for the claims
in `X`. -/
structure SocketStack.Rests (X : Claim → Prop) (st st' : SocketStack S) : Prop where
  later : st.nextGen ≤ st'.nextGen
  bounded : st.Bounded → st'.Bounded
  roused : ∀ c : Claim, ¬X c → c.2 < st.nextGen → st.roused lib c = true → st'.roused lib c = true

variable {lib} {X : Claim → Prop} {st st' st'' : SocketStack S}

namespace SocketStack

theorem roused_of_gone {c : Claim} (gone : st.isCurrent c.1 c.2 = false) : st.roused lib c = true := by simp [roused, gone]

theorem roused_of_peered {c : Claim} (peer : ((st.sock c.1).map lib.state).any TcpState.peered = true) :
    st.roused lib c = true := by
  cases here : st.sock c.1 with
  | none => simp [here] at peer
  | some s =>
    simp only [here, Option.map_some, Option.any_some] at peer
    cases state : lib.state s <;> simp_all [roused, TcpState.peered, TcpState.handshaking]

theorem acceptable_iff {family : IpFamily} {c : Claim} : st.acceptable lib family c = true ↔
    st.isCurrent c.1 c.2 = true ∧ ∃ s, st.sock c.1 = some s ∧ (lib.state s).peered = true ∧
      ((lib.remoteEndpoint s).all fun ep => IpFamily.of ep.1 = family) = true := by
  cases here : st.sock c.1 <;> simp [acceptable, here]

namespace Rests

theorem refl (st : SocketStack S) : st.Rests lib X st := ⟨le_rfl, id, fun _ _ _ out => out⟩

theorem trans (first : st.Rests lib X st') (second : st'.Rests lib X st'') : st.Rests lib X st'' where
  later := first.later.trans second.later
  bounded := second.bounded ∘ first.bounded
  roused c other dated out :=
    second.roused c other (Nat.lt_of_lt_of_le dated first.later) (first.roused c other dated out)

/-- An operation that brings no claim of before to life again, and moves no socket. -/
theorem of_sock (live : ∀ h g, st'.live h = some g → st.live h = some g ∨ st.nextGen ≤ g)
    (later : st.nextGen ≤ st'.nextGen) (size : st.size ≤ st'.size)
    (slots : ∀ h, (st'.sock h).isSome = true → h < st'.size ∨ (st.sock h).isSome = true)
    (rests : ∀ c : Claim, ¬X c → c.2 < st.nextGen → st'.live c.1 = some c.2 → ∀ s', st'.sock c.1 = some s' →
      (lib.state s').handshaking = true → ∃ s, st.sock c.1 = some s ∧ (lib.state s).handshaking = true) :
    st.Rests lib X st' where
  later := later
  bounded bounded h here := (slots h here).elim id fun there => (bounded h there).trans_le size
  roused c other dated out := by
    by_contra asleep
    simp only [SocketStack.roused, Bool.or_eq_true, Bool.not_eq_true', not_or, Bool.not_eq_false,
      Option.any_eq_true] at asleep
    obtain ⟨current, s', here, shaking⟩ := asleep
    have now := isCurrent_iff.1 current
    rcases live c.1 c.2 now with was | new
    · obtain ⟨s, there, shook⟩ := rests c other dated now s' here shaking
      simp [SocketStack.roused, isCurrent_iff.2 was, there, shook] at out
    · exact absurd dated (Nat.not_lt.2 new)

/-- An access that takes the socket, where it is not one of those in `X`, not into the handshake. -/
theorem access {gen h : Nat} {f : S → S} (rests : (∃ g, ¬X (h, g) ∧ st.live h = some g) →
    ∀ s, (lib.state (f s)).handshaking = true → (lib.state s).handshaking = true) :
    st.Rests lib X (st.access gen h f) := by
  refine .of_sock (fun _ _ => .inl) le_rfl le_rfl (fun h' here => .inr ?_) fun c other _ now s' here shaking => ?_
  · rw [sock_access] at here
    split at here
    · simpa using here
    · exact here
  · rw [sock_access] at here
    split at here
    · next same =>
        obtain ⟨s, there, rfl⟩ := Option.map_eq_some_iff.1 here
        obtain ⟨h', g⟩ := c
        obtain rfl : h' = h := same
        exact ⟨s, there, rests ⟨g, other, now⟩ s shaking⟩
    · exact ⟨s', here, shaking⟩

theorem addTracked (sock : S) : st.Rests lib X ((st.add sock).1.track (st.add sock).2).1 := by
  have sock' : ∀ h, (((st.add sock).1.track (st.add sock).2).1).sock h = (st.add sock).1.sock h := fun _ => rfl
  have live' : ∀ h g, (((st.add sock).1.track (st.add sock).2).1).live h = some g →
      h ≠ st.freeSlot ∧ st.live h = some g ∨ g = st.nextGen := by
    intro h g now
    simp only [track, add, Function.update_apply] at now
    split at now
    · exact .inr (Option.some.inj now).symm
    · next other => exact .inl ⟨other, now⟩
  refine .of_sock (fun h g now => (live' h g now).imp And.right fun new => new.ge) (Nat.le_succ _) (le_max_left ..) (fun h here => ?_)
    fun c _ dated now s' here shaking => ?_
  · rw [sock', sock_add] at here
    split at here
    · next same => exact .inl (same ▸ Nat.lt_of_lt_of_le (Nat.lt_succ_self _) (le_max_right ..))
    · exact .inr here
  · rcases live' c.1 c.2 now with ⟨other, -⟩ | new
    · rw [sock', sock_add, if_neg other] at here
      exact ⟨s', here, shaking⟩
    · exact absurd dated (new ▸ Nat.lt_irrefl _)

theorem beginClose (gen h : Nat) (kind : SockKind) : st.Rests lib X (st.beginClose gen h kind) := by
  refine .of_sock (fun h' g now => .inl ?_) (nextGen_beginClose ..).ge ?_ (fun h' here => .inr ?_)
    fun c _ _ _ s' here shaking => ⟨s', by simpa using here, shaking⟩
  · simp only [SocketStack.beginClose] at now
    split at now
    · exact now
    · simp only [Function.update_apply] at now
      split at now
      · cases now
      · exact now
  · simp only [SocketStack.beginClose]
    split <;> rfl
  · simpa using here

theorem remove (gen h : Nat) : st.Rests lib X (st.remove gen h) := by
  have sock' : ∀ h' s, (st.remove gen h).sock h' = some s → st.sock h' = some s := by
    intro h' s here
    simp only [SocketStack.sock, SocketStack.remove, Function.update_apply] at here ⊢
    split at here
    · cases here
    · exact here
  refine .of_sock (fun _ _ => .inl) le_rfl le_rfl (fun h' here => .inr ?_) fun c _ _ _ s' here shaking => ⟨s', sock' _ _ here, shaking⟩
  obtain ⟨s, there⟩ := Option.isSome_iff_exists.1 here
  rw [sock' h' s there]
  rfl

theorem poll {f : Nat → S → S} (rests : ∀ h s, (lib.state (f h s)).handshaking = true → (lib.state s).handshaking = true) :
    st.Rests lib X (st.poll f) := by
  have sock' : ∀ h, (st.poll f).sock h = (st.sock h).map (f h) := by
    intro h
    simp only [SocketStack.poll, SocketStack.sock]
    cases st.slots h <;> rfl
  refine .of_sock (fun _ _ => .inl) le_rfl le_rfl (fun h here => .inr (by simpa [sock'] using here))
    fun c _ _ _ s' here shaking => ?_
  rw [sock'] at here
  obtain ⟨s, there, rfl⟩ := Option.map_eq_some_iff.1 here
  exact ⟨s, there, rests _ s shaking⟩

/-- The library is told to open a socket, and leaves it as it is or is allowed to. -/
theorem tries {a : Attempt S} (allowed : st.takes a = true → ∀ g, st.live a.handle = some g → X (a.handle, g)) :
    st.Rests lib X (st.tries a) := by
  refine .of_sock (fun _ _ => .inl) le_rfl le_rfl (fun h here => .inr ?_) fun c other _ now s' here shaking => ?_
  · simp only [SocketStack.tries, attempt, sock_access] at here
    split at here
    · simpa using here
    · exact here
  · simp only [SocketStack.tries, attempt, sock_access] at here
    split at here
    · next same =>
        obtain ⟨s, there, rfl⟩ := Option.map_eq_some_iff.1 here
        obtain ⟨h, g⟩ := c
        obtain rfl : h = a.handle := same
        cases taken : st.takes a with
        | true => exact absurd (allowed taken g now) other
        | false =>
          have left : a.run s = none := by
            simpa [takes, attempt, show st.sock a.handle = some s from there] using taken
          rw [left, Option.getD_none] at shaking
          exact ⟨s, there, shaking⟩
    · exact ⟨s', here, shaking⟩

variable (settles : lib.Settles)

include settles

theorem frames (X : Claim → Prop) : Frames lib (SocketStack.Rests lib X) where
  refl := refl
  trans := trans
  look _ _ _ := access fun _ _ => id
  close _ _ _ := access fun _ => settles.close
  abort _ _ _ := access fun _ => settles.abort
  beginClose _ _ _ _ := beginClose ..
  remove _ _ _ := remove ..
  listed _ _ := ⟨le_rfl, id, fun _ _ _ => id⟩

omit settles in
theorem fresh (ep : IpListenEndpoint) (st : SocketStack S) : st.Rests lib X (st.fresh lib ep).1 := by
  let st' := ((st.add lib.tcp).1.track (st.add lib.tcp).2).1
  let a : Attempt S := { gen := st.nextGen, handle := st.freeSlot, run := fun s => lib.listen s ep }
  -- Nobody has claimed the new socket before.
  have told : st'.Rests lib (fun c => c.2 = st.nextGen) (st'.tries a) := by
    refine tries fun _ g now => ?_
    have live : st'.live st.freeSlot = some st.nextGen := Function.update_self ..
    exact Option.some.inj (now.symm.trans live)
  have both : st.Rests lib (fun c => c.2 = st.nextGen) (st.fresh lib ep).1 := (addTracked lib.tcp).trans told
  exact ⟨both.later, both.bounded, fun c _ dated => both.roused c dated.ne dated⟩

theorem binds (n gen h : Nat) (st : SocketStack S) : st.Rests lib X (st.attempt gen h fun s => lib.bind s n).1 := by
  refine show st.Rests lib X (st.access gen h fun s => (lib.bind s n).getD s) from access fun _ s shaking => ?_
  cases bound : lib.bind s n with
  | none => simpa [bound] using shaking
  | some s' => exact settles.bind s n s' bound (by simpa [bound] using shaking)

end Rests

/-! ## What an accept leaves of a pool -/

section Accept

variable {family : IpFamily} {n : Nat}

/-- A slot that is armed again has lost its socket. -/
theorem refuse_roused {peered : TcpState → Bool} {c : Claim} (dated : c.2 < st.nextGen) :
    (st.refuse lib peered family n c).2 = c ∨ (st.refuse lib peered family n c).1.roused lib c = true := by
  simp only [refuse]
  split
  · exact .inl rfl
  · split
    · exact .inl rfl
    · split
      · refine .inr ?_
        let closed := ((st.access c.2 c.1 id).access c.2 c.1 lib.abort).beginClose c.2 c.1 .tcp
        have later : st.nextGen ≤ closed.nextGen := (nextGen_beginClose ((st.access c.2 c.1 id).access c.2 c.1 lib.abort) c.2 c.1 .tcp).ge
        have gone : closed.isCurrent c.1 c.2 = false := by
          simp [isCurrent, closed, Owned.live_beginClose]
        exact (Rests.fresh (X := fun _ => False) _ closed).roused c id (Nat.lt_of_lt_of_le dated later) (roused_of_gone gone)
      · exact .inl rfl

variable (settles : lib.Settles)

include settles

theorem refuseAll_roused {peered : TcpState → Bool} : ∀ {pool : List Claim} {st : SocketStack S}, st.Dated pool →
    (st.refuseAll lib peered family n pool).2 = pool ∨
      ∃ c ∈ pool, (st.refuseAll lib peered family n pool).1.roused lib c = true
  | [], _, _ => .inl rfl
  | c :: pool, st, dated => by
    have frames := Rests.frames settles fun _ => False
    have first := frames.refuse (n := n) (fun ep _ st => Rests.fresh ep st) peered family c st
    have rest := frames.refuseAll (n := n) (fun ep _ st => Rests.fresh ep st) peered family pool (st.refuse lib peered family n c).1
    have here := dated c List.mem_cons_self
    simp only [refuseAll]
    have lost : (st.refuse lib peered family n c).2 = c ∨ _ := refuse_roused here
    rcases lost with same | out
    · rcases refuseAll_roused (Dated.later (fun c member => dated c (List.mem_cons_of_mem _ member)) first.later) with
        same' | ⟨c', member, out⟩
      · exact .inl (by rw [same, same'])
      · exact .inr ⟨c', List.mem_cons_of_mem _ member, out⟩
    · exact .inr ⟨c, List.mem_cons_self, rest.roused c id (Nat.lt_of_lt_of_le here first.later) out⟩

omit settles in
theorem length_refuseAll (peered : TcpState → Bool) : ∀ (pool : List Claim) (st : SocketStack S),
    (st.refuseAll lib peered family n pool).2.length = pool.length
  | [], _ => rfl
  | _ :: pool, _ => congrArg Nat.succ (length_refuseAll peered pool _)

end Accept

end SocketStack

namespace TcpSock

open SocketStack

/-- The claims of a socket were given out, and only a listener has a backlog. -/
structure Pooled (s : TcpSock) (st : SocketStack S) : Prop where
  dated : st.Dated s.pool
  alone : s.listening = false → s.backlog = []

theorem Pooled.later {s : TcpSock} (pooled : s.Pooled st) (later : st.nextGen ≤ st'.nextGen) : s.Pooled st' :=
  ⟨pooled.dated.later later, pooled.alone⟩

theorem Pooled.congr {s s' : TcpSock} (pooled : s.Pooled st) (pool : s'.pool = s.pool) (listening : s'.listening = s.listening) :
    s'.Pooled st :=
  ⟨pool ▸ pooled.dated, fun idle => (List.cons.inj pool).2.trans (pooled.alone (listening ▸ idle))⟩

theorem Pooled.withPool {s : TcpSock} (pooled : s.Pooled st) {pool : List Claim} (length : pool.length = s.pool.length)
    (dated : st'.Dated pool) : (s.withPool pool).Pooled st' := by
  cases pool with
  | nil => cases length
  | cons c backlog =>
    refine ⟨dated, fun idle => ?_⟩
    have alone := pooled.alone idle
    have none' : backlog = [] := by simpa [TcpSock.pool, alone] using length
    exact none'

/-- What an accept makes of its listener: a pool with other sockets than before is a pool that has
lost one of them. -/
structure Accepts (lib : SocketLib S) (s : TcpSock) (r : SocketStack S × TcpSock × Except ErrorCode TcpSock) : Prop where
  lost : r.2.1.pool = s.pool ∨ r.1.eventReady lib s.pool = true
  pooled : r.2.1.Pooled r.1
  given : ∀ conn, r.2.2 = .ok conn → conn.Pooled r.1

theorem accept_accepts (settles : lib.Settles) (s : TcpSock) (pooled : s.Pooled st) : Accepts lib s (s.accept lib st) := by
  have dated := pooled.dated
  have frames := Rests.frames settles fun _ => False
  have refused := frames.refuseAll (n := s.boundPort) (fun ep _ st => Rests.fresh ep st) TcpState.peered s.family s.pool st
  have lost : _ ∨ ∃ c ∈ s.pool, (st.refuseAll lib TcpState.peered s.family s.boundPort s.pool).1.roused lib c = true :=
    refuseAll_roused settles dated
  have dated' : (st.refuseAll lib TcpState.peered s.family s.boundPort s.pool).1.Dated _ := refuseAll_dated dated
  have length : (st.refuseAll lib TcpState.peered s.family s.boundPort s.pool).2.length = s.pool.length := length_refuseAll ..
  simp only [accept]
  generalize st.refuseAll lib TcpState.peered s.family s.boundPort s.pool = r at refused lost dated' length ⊢
  obtain ⟨st₁, pool⟩ := r
  have found : st₁.Rests lib _ (st₁.position lib TcpState.peered pool).1 := frames.position
  obtain ⟨-, there⟩ := position_spec lib TcpState.peered pool st₁
  dsimp only at refused lost dated' length ⊢
  have some' : pool ≠ [] := by
    rintro rfl
    cases length
  generalize st₁.position lib TcpState.peered pool = r at found there ⊢
  obtain ⟨st₂, idx⟩ := r
  have still : ∀ {st' : SocketStack S}, st₁.Rests lib (fun _ => False) st' → (∃ c ∈ s.pool, st₁.roused lib c = true) →
      st'.eventReady lib s.pool = true := by
    rintro st' rests ⟨c, member, out⟩
    exact List.any_eq_true.2 ⟨c, member, rests.roused c id (Nat.lt_of_lt_of_le (dated c member) refused.later) out⟩
  cases idx with
  | none =>
    refine ⟨?_, ?_, fun _ same => by cases same⟩
    · rw [Listener.pool_withPool s some']
      exact lost.imp id (still found)
    · exact pooled.withPool length (dated'.later found.later)
  | some idx =>
    obtain ⟨conn, here, -, peer⟩ := there idx rfl
    have taken : pool.getD idx s.claim = conn := by rw [List.getD_eq_getElem?_getD, here]; rfl
    have member := List.mem_of_getElem? here
    dsimp only at found ⊢
    rw [taken]
    generalize ep' : (st₂.access conn.2 conn.1 id).relistenEp lib (st₂.sock conn.1) s.family s.boundPort = ep
    have all := frames.trans (frames.trans found (frames.look st₂ conn.2 conn.1)) (Rests.fresh ep _)
    have out : (∃ c ∈ s.pool, st₁.roused lib c = true) := by
      rcases lost with same | out
      · exact ⟨conn, same ▸ member, roused_of_peered peer⟩
      · exact out
    have given := dated'.later all.later
    split
    · refine ⟨.inr (still all out), ?_, fun conn' same => ?_⟩
      · refine pooled.withPool (by simpa using length) fun c new => ?_
        rcases List.mem_or_eq_of_mem_set new with old | rfl
        · exact given c old
        · exact fresh_dated lib ep _
      · cases same
        refine ⟨fun c only => ?_, fun _ => rfl⟩
        rw [List.mem_singleton.1 only]
        exact given conn member
    · exact ⟨.inl rfl, pooled.later (refused.later.trans all.later), fun _ same => by cases same⟩

/-- While all its sockets are in the handshake a listener has no connection. -/
theorem accept_asleep (s : TcpSock) (asleep : st.Quiet lib TcpState.peered s.pool) :
    (s.accept lib st).2.2 = .error .wouldBlock := by
  obtain ⟨same, live, sock⟩ := refuseAll_quiet s.family s.boundPort asleep
  simp only [accept]
  generalize st.refuseAll lib TcpState.peered s.family s.boundPort s.pool = r at same live sock ⊢
  obtain ⟨st₁, pool⟩ := r
  obtain rfl : pool = s.pool := same
  obtain ⟨-, there⟩ := position_spec lib TcpState.peered s.pool st₁
  have asleep' := asleep.congr live sock
  dsimp only
  generalize st₁.position lib TcpState.peered s.pool = r at there ⊢
  obtain ⟨st₂, idx⟩ := r
  cases idx with
  | none => rfl
  | some idx =>
    obtain ⟨c, here, current, peer⟩ := there idx rfl
    exact absurd peer (by simp [asleep' c (List.mem_of_getElem? here) current])

end TcpSock

namespace SocketStack

/-! ## What an accept finds -/

/-- A fresh socket is put in a slot where none is. -/
theorem freeSlot_ne (bounded : st.Bounded) {h : Nat} (here : (st.sock h).isSome = true) : st.freeSlot ≠ h := by
  rintro rfl
  simp only [freeSlot] at here
  cases found : (List.range st.size).find? fun h => (st.slots h).isNone with
  | some h =>
    have free := List.find?_some found
    simp_all [SocketStack.sock]
  | none =>
    rw [found, Option.getD_none] at here
    exact absurd (bounded _ here) (Nat.lt_irrefl _)

variable (lib) in
theorem fresh_elsewhere (bounded : st.Bounded) {h : Nat} (here : (st.sock h).isSome = true) (ep : IpListenEndpoint) :
    (st.fresh lib ep).2.1.1 ≠ h ∧ (st.fresh lib ep).1.sock h = st.sock h ∧ (st.fresh lib ep).1.live h = st.live h := by
  have other := freeSlot_ne bounded here
  refine ⟨other, ?_, Function.update_of_ne other.symm ..⟩
  have told : (st.fresh lib ep).1.sock h = (st.add lib.tcp).1.sock h := by
    simp only [fresh, attempt]
    rw [sock_access]
    exact if_neg other.symm
  rw [told, sock_add, if_neg other.symm]

theorem live_beginClose_ne {h h' : Nat} (other : h' ≠ h) (gen : Nat) (kind : SockKind) :
    (st.beginClose gen h kind).live h' = st.live h' := by
  simp only [SocketStack.beginClose]
  split
  · rfl
  · exact Function.update_of_ne other ..

section Find

variable {family : IpFamily} {n : Nat} {c : Claim}

/-- A connection to a peer of the family is not refused, and nothing is done to it. -/
theorem refuse_acceptable (bounded : st.Bounded) (fine : st.acceptable lib family c = true) (c' : Claim) :
    (st.refuse lib TcpState.peered family n c').1.acceptable lib family c = true ∧
      (c' = c → (st.refuse lib TcpState.peered family n c').2 = c) := by
  obtain ⟨current, s, here, peer, own⟩ := acceptable_iff.1 fine
  have looked : (st.access c'.2 c'.1 id).acceptable lib family c = true :=
    acceptable_iff.2 ⟨current, s, by rwa [sock_access_id], peer, own⟩
  simp only [refuse]
  split
  · exact ⟨fine, id⟩
  · next now =>
      split
      · exact ⟨looked, id⟩
      · next foreign =>
          -- The refused socket is in another slot.
          have other : c.1 ≠ c'.1 := by
            intro same
            simp only [← same, here, Option.map_some, Option.any_some, Option.bind_some] at foreign
            simp [peer, own] at foreign
          let closed := ((st.access c'.2 c'.1 id).access c'.2 c'.1 lib.abort).beginClose c'.2 c'.1 .tcp
          have bounded' : closed.Bounded := by
            intro h some'
            have sock' : (closed.sock h).isSome = (st.sock h).isSome := by
              simp only [closed, sock_beginClose, sock_access]
              split <;> simp
            have size' : closed.size = st.size := by
              simp only [closed, SocketStack.beginClose]
              split <;> rfl
            exact size' ▸ bounded h (sock' ▸ some')
          have closed_sock : closed.sock c.1 = some s := by
            simp only [closed, sock_beginClose, sock_access, if_neg other, here]
          have closed_live : closed.live c.1 = some c.2 := by
            simp only [closed]
            rw [live_beginClose_ne other]
            exact isCurrent_iff.1 current
          obtain ⟨elsewhere, sock, live⟩ := fresh_elsewhere lib bounded' (by rw [closed_sock]; rfl)
            ((st.access c'.2 c'.1 id).relistenEp lib (st.sock c'.1) family n)
          have missed : c' ≠ c := fun same => other (same ▸ rfl)
          split
          · refine ⟨acceptable_iff.2 ⟨isCurrent_iff.2 ?_, s, ?_, peer, own⟩, (absurd · missed)⟩
            · exact live.trans closed_live
            · exact sock.trans closed_sock
          · refine ⟨acceptable_iff.2 ⟨isCurrent_iff.2 ?_, s, ?_, peer, own⟩, (absurd · missed)⟩
            · rw [live_beginClose_ne elsewhere.symm]
              exact live.trans closed_live
            · rw [sock_beginClose]
              exact sock.trans closed_sock

theorem refuseAll_acceptable (settles : lib.Settles) : ∀ (pool : List Claim) {st : SocketStack S}, st.Bounded →
    st.acceptable lib family c = true →
      (st.refuseAll lib TcpState.peered family n pool).1.acceptable lib family c = true ∧
        (c ∈ pool → c ∈ (st.refuseAll lib TcpState.peered family n pool).2)
  | [], _, _, fine => ⟨fine, id⟩
  | c' :: pool, st, bounded, fine => by
    have frames := Rests.frames settles fun _ => False
    have first := frames.refuse (n := n) (fun ep _ st => Rests.fresh ep st) TcpState.peered family c' st
    obtain ⟨fine', same⟩ := refuse_acceptable (n := n) bounded fine c'
    obtain ⟨still, within⟩ := refuseAll_acceptable settles pool (first.bounded bounded) fine'
    refine ⟨still, fun member => ?_⟩
    simp only [refuseAll]
    rcases List.mem_cons.1 member with rfl | member
    · exact List.mem_cons.2 (.inl (same rfl).symm)
    · exact List.mem_cons_of_mem _ (within member)

theorem position_finds {peered : TcpState → Bool} : ∀ {pool : List Claim} {st : SocketStack S}, c ∈ pool →
    st.isCurrent c.1 c.2 = true → ((st.sock c.1).any fun s => peered (lib.state s)) = true →
      (st.position lib peered pool).2 ≠ none
  | [], _, member, _, _ => by cases member
  | c' :: pool, st, member, current, peer => by
    simp only [position]
    split
    · split
      · exact Option.some_ne_none _
      · next none' =>
          have later : c ∈ pool := by
            rcases List.mem_cons.1 member with rfl | later
            · exact absurd peer none'
            · exact later
          have looked : (st.access c'.2 c'.1 id).isCurrent c.1 c.2 = true := current
          simpa using position_finds later looked (by rwa [sock_access_id])
    · next gone =>
        have later : c ∈ pool := by
          rcases List.mem_cons.1 member with rfl | later
          · exact absurd current gone
          · exact later
        simpa using position_finds later current peer

end Find

end SocketStack

/-- A listener with a connection to accept accepts one, or says that it cannot be replaced. -/
theorem TcpSock.accept_finds (settles : lib.Settles) (s : TcpSock) (bounded : st.Bounded)
    (fine : s.pool.any (st.acceptable lib s.family) = true) : (s.accept lib st).2.2 ≠ .error .wouldBlock := by
  obtain ⟨c, member, fine⟩ := List.any_eq_true.1 fine
  obtain ⟨fine', within⟩ := SocketStack.refuseAll_acceptable (n := s.boundPort) settles s.pool bounded fine
  simp only [accept]
  generalize st.refuseAll lib TcpState.peered s.family s.boundPort s.pool = r at fine' within ⊢
  obtain ⟨st₁, pool⟩ := r
  obtain ⟨current, sock, here, peer, -⟩ := SocketStack.acceptable_iff.1 fine'
  have finds : (st₁.position lib TcpState.peered pool).2 ≠ none :=
    SocketStack.position_finds (within member) current (by rw [here]; exact peer)
  dsimp only
  generalize st₁.position lib TcpState.peered pool = r at finds ⊢
  obtain ⟨st₂, idx⟩ := r
  cases idx with
  | none => exact absurd rfl finds
  | some idx =>
    dsimp only
    split
    · intro same
      cases same
    · intro same
      cases same

/-! ## What a call leaves of the pools -/

namespace NetNode

variable {w w' : NetNode S} {call : SocketCall S}

def Pooled (w : NetNode S) : Prop := ∀ i s, w.resource i = some (.tcp s) → s.Pooled w.stack

/-- A 0.2 socket has the pool it had, or listens now, or has lost one of its sockets. -/
structure Repooled (lib : SocketLib S) (w : NetNode S) (call : SocketCall S) (w' : NetNode S) : Prop where
  pooled : w'.Pooled
  grows : w.table.length ≤ w'.table.length
  pool : ∀ i s', w'.resource i = some (.tcp s') → w.table.length ≤ i ∨ ∃ s, w.resource i = some (.tcp s) ∧
    (s'.pool = s.pool ∨ (call.listensOn = some i ∧ ∃ a ∈ w.attempt lib call, w.stack.takes a = true) ∨
      w'.stack.eventReady lib s.pool = true)

section Repooled

variable (pooled : w.Pooled) (later : w.stack.nextGen ≤ w'.stack.nextGen)

include pooled later

theorem Repooled.change {i : Nat} {r' : Option Resource} {new : List (Option Resource)} (table : w'.table = w.table.set i r' ++ new)
    (old : ∀ s', r' = some (.tcp s') → s'.Pooled w'.stack ∧ ∃ s, w.resource i = some (.tcp s) ∧
      (s'.pool = s.pool ∨ (call.listensOn = some i ∧ ∃ a ∈ w.attempt lib call, w.stack.takes a = true) ∨
        w'.stack.eventReady lib s.pool = true))
    (added : ∀ s', some (.tcp s') ∈ new → s'.Pooled w'.stack) : Repooled lib w call w' where
  pooled j s' here := by
    rcases resource_change table here with ⟨rfl, changed⟩ | kept | ⟨-, come⟩
    · exact (old s' changed).1
    · exact (pooled j s' kept).later later
    · exact added s' come
  grows := by simp [table]
  pool j s' here := by
    rcases resource_change table here with ⟨rfl, changed⟩ | kept | ⟨past, -⟩
    · exact .inr (old s' changed).2
    · exact .inr ⟨s', kept, .inl rfl⟩
    · exact .inl past

/-- A call that brings resources. -/
theorem Repooled.append {new : List (Option Resource)} (table : w'.table = w.table ++ new)
    (added : ∀ s', some (.tcp s') ∈ new → s'.Pooled w'.stack) : Repooled lib w call w' := by
  have none' : w.table.set w.table.length none = w.table := List.set_eq_of_length_le le_rfl
  exact .change pooled later (by rw [none', table]) (fun _ same => by cases same) added

/-- A call that leaves the resources as they are. -/
theorem Repooled.same (table : w'.table = w.table) : Repooled lib w call w' :=
  .append pooled later (by rw [table, List.append_nil]) fun _ member => by cases member

/-- A call on a 0.2 socket that keeps its pool. -/
theorem Repooled.tcp {i : Nat} {s s' : TcpSock} (found : w.resource i = some (.tcp s))
    (table : w'.table = w.table.set i (some (.tcp s'))) (kept : s'.pool = s.pool ∧ s'.listening = s.listening) :
    Repooled lib w call w' := by
  refine .change pooled later (by rw [table, List.append_nil]) (fun s'' same => ?_) fun _ member => by cases member
  cases same
  exact ⟨((pooled i s found).later later).congr kept.1 kept.2, s, found, .inl kept.1⟩

/-- A call that leaves another resource in its place, or none. -/
theorem Repooled.other {i : Nat} {r' : Option Resource} (table : w'.table = w.table.set i r')
    (changed : ∀ s, r' ≠ some (.tcp s) := by intro s same; cases same) : Repooled lib w call w' :=
  .change pooled later (by rw [table, List.append_nil]) (fun s same => absurd same (changed s)) fun _ come => by cases come

end Repooled

theorem pool_startConnect (s : TcpSock) (hostAccess : Bool) (nextPort : Nat) (remote : SocketAddress) :
    (s.startConnect lib st hostAccess nextPort remote).2.1.pool = s.pool ∧
      (s.startConnect lib st hostAccess nextPort remote).2.1.listening = s.listening := by
  simp only [TcpSock.startConnect]
  split
  · split <;> exact ⟨rfl, rfl⟩
  · split <;> exact ⟨rfl, rfl⟩

theorem Repooled.startListen (pooled : w.Pooled) {i : Nat} {s : TcpSock} (found : w.resource i = some (.tcp s))
    (later : w.stack.nextGen ≤ (s.startListen lib w.stack).1.nextGen)
    (table : w'.table = w.table.set i (some (.tcp (s.startListen lib w.stack).2.1)))
    (stack : w'.stack = (s.startListen lib w.stack).1) : Repooled lib w (.startListen i) w' := by
  have attempt' : w.attempt lib (.startListen i) = some (s.listens lib w.stack) := by rw [attempt, found]
  refine .change pooled (stack ▸ later) (by rw [table, List.append_nil]) (fun s' same => ?_) fun _ come => by cases come
  rw [stack]
  simp only [TcpSock.startListen] at same later ⊢
  split at same
  · next taken =>
      simp only [if_pos taken] at later ⊢
      cases same
      refine ⟨⟨fun c member => ?_, fun idle => by cases idle⟩, s, found, .inr (.inl ⟨rfl, _, attempt', taken⟩)⟩
      rcases List.mem_cons.1 member with rfl | member
      · exact Nat.lt_of_lt_of_le ((pooled i s found).dated _ List.mem_cons_self) later
      · exact SocketStack.arm_dated lib _ _ _ c member
  · next refused =>
      simp only [if_neg refused] at later ⊢
      cases same
      exact ⟨(pooled i s found).later later, s, found, .inl rfl⟩

theorem Repooled.accept (settles : lib.Settles) (pooled : w.Pooled) (i : Nat)
    (later : w.stack.nextGen ≤ (w.step lib (.accept i)).stack.nextGen) : Repooled lib w (.accept i) (w.step lib (.accept i)) := by
  simp only [NetNode.step, onTcp] at later ⊢
  split
  · next s found =>
      have accepts := s.accept_accepts settles (pooled i s found)
      simp only [found] at later ⊢
      generalize s.accept lib w.stack = r at accepts later ⊢
      obtain ⟨st, s', answer⟩ := r
      obtain ⟨lost, dated', given⟩ := accepts
      have changed : ∀ s'', some (Resource.tcp s') = some (.tcp s'') → s''.Pooled st ∧ ∃ s, w.resource i = some (.tcp s) ∧
          (s''.pool = s.pool ∨ ((SocketCall.accept (S := S) i).listensOn = some i ∧
              ∃ a ∈ w.attempt lib (.accept i), w.stack.takes a = true) ∨
            st.eventReady lib s.pool = true) := by
        intro s'' same
        cases same
        exact ⟨dated', s, found, lost.imp_right .inr⟩
      cases answer with
      | error e => exact .change pooled later (List.append_nil _).symm changed fun _ come => by cases come
      | ok conn =>
        refine .change pooled later rfl changed fun s'' come => ?_
        cases List.mem_singleton.1 come
        exact given conn rfl
  · exact .same pooled le_rfl rfl

theorem Repooled.step (settles : lib.Settles) (pooled : w.Pooled)
    (later : w.stack.nextGen ≤ (w.step lib call).stack.nextGen) : Repooled lib w call (w.step lib call) := by
  let P (w' : NetNode S) : Prop := w.stack.nextGen ≤ w'.stack.nextGen → Repooled lib w call w'
  have trap : P w := fun later => .same pooled later rfl
  revert later
  cases call with
  | createTcp family =>
    refine fun later => .append pooled later rfl fun s' come => ?_
    cases List.mem_singleton.1 come
    refine ⟨fun c only => ?_, fun _ => rfl⟩
    rw [List.mem_singleton.1 only]
    exact Nat.lt_succ_self _
  | createUdp family =>
    refine fun later => .append pooled later rfl fun s' come => ?_
    cases List.mem_singleton.1 come
  | createTcp3 family =>
    refine fun later => .append pooled later rfl fun s' come => ?_
    cases List.mem_singleton.1 come
  | createUdp3 family =>
    refine fun later => .append pooled later rfl fun s' come => ?_
    cases List.mem_singleton.1 come
  | startBind i addr => exact onTcp_cases (P := P) trap fun s found later => .tcp pooled later found rfl ⟨rfl, rfl⟩
  | finishBind i =>
    refine onTcp_cases (P := P) trap fun s found later => .tcp pooled later found rfl ?_
    simp only [TcpSock.finishBind]
    split <;> exact ⟨rfl, rfl⟩
  | startConnect i remote =>
    exact onTcp_cases (P := P) trap fun s found later => .tcp pooled later found rfl (pool_startConnect s _ _ _)
  | finishConnect i failed connected => exact onTcp_cases (P := P) trap fun s _ later => .same pooled later rfl
  | startListen i => exact onTcp_cases (P := P) trap fun s found later => .startListen pooled found later rfl rfl
  | accept i => exact .accept settles pooled i
  | subscribe i => exact onTcp_cases (P := P) trap fun s _ later => .same pooled later rfl
  | shutdown i => exact onTcp_cases (P := P) trap fun s _ later => .same pooled later rfl
  | drop i => exact onTcp_cases (P := P) trap fun s _ later => .other pooled later rfl
  | startBindUdp i addr => exact onUdp_cases (P := P) trap fun s _ later => .other pooled later rfl
  | finishBindUdp i => exact onUdp_cases (P := P) trap fun s _ later => .other pooled later rfl
  | stream i remote => exact onUdp_cases (P := P) trap fun s _ later => .other pooled later rfl
  | subscribeUdp i => exact onUdp_cases (P := P) trap fun s _ later => .same pooled later rfl
  | dropUdp i => exact onUdp_cases (P := P) trap fun s _ later => .other pooled later rfl
  | bind3 i addr => exact onTcp3_cases (P := P) trap fun s _ later => .other pooled later rfl
  | connect3 i remote => exact onTcp3_cases (P := P) trap fun s _ later => .other pooled later rfl
  | settle3 i failed =>
    refine onTcp3_cases (P := P) trap fun s _ => ?_
    split
    · exact fun later => .other pooled later rfl
    · exact trap
  | listen3 i =>
    refine onTcp3_cases (P := P) trap fun s _ => ?_
    split
    · exact fun later => .other pooled later rfl
    · exact fun later => .other pooled later rfl
  | send3 i => exact onTcp3_cases (P := P) trap fun s _ later => .other pooled later rfl
  | receive3 i => exact onTcp3_cases (P := P) trap fun s _ later => .other pooled later rfl
  | drop3 i => exact onTcp3_cases (P := P) trap fun s _ later => .other pooled later rfl
  | produce p =>
    simp only [NetNode.step]
    split
    · exact trap
    · next producer found =>
        intro later
        refine .append pooled later rfl fun s' come => ?_
        generalize (producer.pollProduce lib (w.pools.getD producer.pool []) w.stack).2.2 = produced at come
        cases produced <;> simp [Produced.added] at come
  | bindUdp3 i addr => exact onUdp3_cases (P := P) trap fun s _ later => .other pooled later rfl
  | connectUdp3 i remote => exact onUdp3_cases (P := P) trap fun s _ later => .other pooled later rfl
  | disconnectUdp3 i => exact onUdp3_cases (P := P) trap fun s _ later => .other pooled later rfl
  | sendUdp3 i given => exact onUdp3_cases (P := P) trap fun s _ later => .other pooled later rfl
  | receiveUdp3 i => exact onUdp3_cases (P := P) trap fun s _ later => .same pooled later rfl
  | dropUdp3 i => exact onUdp3_cases (P := P) trap fun s _ later => .other pooled later rfl
  | io k f =>
    simp only [NetNode.step]
    split
    · exact fun later => .same pooled later rfl
    · exact trap
  | await k want =>
    simp only [NetNode.step]
    split
    · exact fun later => .same pooled later rfl
    · exact trap
  | ready k =>
    simp only [NetNode.step]
    split
    · exact fun later => .same pooled later rfl
    · exact trap
  | grant hostAccess => exact fun later => .same pooled later rfl
  | poll f => exact fun later => .same pooled later rfl
  | reap => exact fun later => .same pooled later rfl

end NetNode

/-! ## Pollables along a run -/

namespace Watched

variable {x : Watched S} {call : SocketCall S}

/-- A pollable watches the sockets that its socket has, or is ready and stays so. -/
structure Watching (lib : SocketLib S) (x : Watched S) : Prop where
  bounded : x.node.stack.Bounded
  pools : x.node.Pooled
  within : ∀ i p, (i, p) ∈ x.obtained → i < x.node.table.length
  dated : ∀ i q, (i, some q) ∈ x.obtained → x.node.stack.Dated q.pool
  watches : ∀ i q, (i, some q) ∈ x.obtained → ∀ s, x.node.resource i = some (.tcp s) →
    q.pool = s.pool ∨ x.node.stack.eventReady lib q.pool = true

theorem watching_boot (ip : Ipv4) (ip6 : Ipv6) : Watching lib { node := NetNode.boot ip ip6 } where
  bounded h here := by simp [NetNode.boot, SocketStack.sock] at here
  pools i s here := by simp [NetNode.resource, NetNode.boot] at here
  within _ _ member := by cases member
  dated _ _ member := by cases member
  watches _ _ member := by cases member

variable (lib) in
theorem obtains_spec {w : NetNode S} {i : Nat} {p : Option Pollable} (member : (i, p) ∈ w.obtains call) :
    ∃ s, w.resource i = some (.tcp s) ∧ p = s.subscribe ∧
      w.step lib call = { w with pollables := w.pollables ++ s.subscribe.toList } := by
  cases call
  case subscribe j =>
    simp only [NetNode.obtains] at member
    split at member
    · next s found =>
        cases List.mem_singleton.1 member
        exact ⟨s, found, rfl, by simp only [NetNode.step, NetNode.onTcp, found]⟩
    · cases member
  all_goals cases member

/-- What a socket gives out watches the sockets that it has, or its own only, while it does not
listen. -/
theorem subscribe_pool {s : TcpSock} {q : Pollable} (given : s.subscribe = some q) :
    s.host = false ∧ q.pool = if s.listening then s.pool else [s.claim] := by
  simp only [TcpSock.subscribe] at given
  split at given
  · cases given
  · next direct =>
      cases given
      exact ⟨by simpa using direct, rfl⟩

theorem subscribe_whole {s : TcpSock} (pooled : s.Pooled st) {q : Pollable} (given : s.subscribe = some q) : q.pool = s.pool := by
  rw [(subscribe_pool given).2]
  split
  · rfl
  · next idle => rw [TcpSock.pool, pooled.alone (Bool.eq_false_iff.2 idle)]

theorem Watching.step (settles : lib.Settles) (watching : Watching lib x) (settled : call.Settled lib)
    (orderly : x.Orderly lib call) : Watching lib (x.step lib call) := by
  -- The claims whose socket the call opens.
  let X (c : Claim) : Prop := ∃ a ∈ x.node.attempt lib call, x.node.stack.takes a = true ∧ c.1 = a.handle ∧
    x.node.stack.isCurrent c.1 c.2 = true
  have rests : x.node.stack.Rests lib X (x.node.step lib call).stack := by
    refine NetNode.frame_step (SocketStack.Rests.frames settles X) (fun ep st => .fresh ep st)
      (fun sock _ st => .addTracked sock) (SocketStack.Rests.binds settles) (fun a member => ?_) ?_ ?_
    · exact .tries fun taken g live => ⟨a, member, taken, rfl, SocketStack.isCurrent_iff.2 live⟩
    · rintro k f rfl gen h st
      exact .access fun _ => settled
    · rintro f rfl
      exact .poll settled
  have repooled : NetNode.Repooled lib x.node call _ := .step settles watching.pools rests.later
  have stays : ∀ i q, (i, some q) ∈ x.obtained → (∃ c ∈ q.pool, x.node.stack.roused lib c = true ∧ ¬X c) →
      (x.node.step lib call).stack.eventReady lib q.pool = true := by
    rintro i q member ⟨c, there, out, other⟩
    exact List.any_eq_true.2 ⟨c, there, rests.roused c other (watching.dated i q member c there) out⟩
  have opened : ∀ i q, (i, some q) ∈ x.obtained → ∀ s, x.node.resource i = some (.tcp s) →
      (∃ a ∈ x.node.attempt lib call, x.node.stack.takes a = true) → call.listensOn = some i ∨ q.pool ≠ s.pool →
        (x.node.step lib call).stack.eventReady lib q.pool = true := by
    rintro i q member s found ⟨a, tried, taken⟩ apart
    obtain ⟨c, there, out, gone⟩ := orderly a tried taken i q member s found apart
    refine stays i q member ⟨c, there, out, ?_⟩
    rintro ⟨a', tried', -, same, current⟩
    obtain rfl : a' = a := Option.some.inj (tried'.symm.trans tried)
    exact absurd current (by simp [gone same])
  refine ⟨rests.bounded watching.bounded, repooled.pooled, fun i p member => ?_, fun i q member => ?_, fun i q member s' here => ?_⟩
  · rcases List.mem_append.1 member with old | new
    · exact (watching.within i p old).trans_le repooled.grows
    · obtain ⟨s, found, -, -⟩ := obtains_spec lib new
      have slot := Option.join_eq_some_iff.1 found
      exact (List.getElem?_eq_some_iff.1 slot).1.trans_le repooled.grows
  · rcases List.mem_append.1 member with old | new
    · exact (watching.dated i q old).later rests.later
    · obtain ⟨s, found, given, -⟩ := obtains_spec lib new
      have pooled := watching.pools i s found
      rw [subscribe_whole pooled given.symm]
      exact pooled.dated.later rests.later
  · rcases List.mem_append.1 member with old | new
    · rcases repooled.pool i s' here with past | ⟨s, found, became⟩
      · exact absurd (watching.within i _ old) (Nat.not_lt.2 past)
      · by_cases whole : q.pool = s.pool
        · rcases became with same | ⟨listens, taken⟩ | lost
          · exact .inl (whole.trans same.symm)
          · exact .inr (opened i q old s found taken (.inl listens))
          · exact .inr (whole ▸ lost)
        · refine .inr ?_
          by_cases taken : ∃ a ∈ x.node.attempt lib call, x.node.stack.takes a = true
          · exact opened i q old s found taken (.inr whole)
          · obtain ⟨c, there, out⟩ := List.any_eq_true.1 ((watching.watches i q old s found).resolve_left whole)
            exact stays i q old ⟨c, there, out, fun ⟨a, tried, took, _⟩ => taken ⟨a, tried, took⟩⟩
    · obtain ⟨s, found, given, stepped⟩ := obtains_spec lib new
      have same : (x.node.step lib call).resource i = x.node.resource i := by rw [stepped]; rfl
      have here' : some (Resource.tcp s') = some (.tcp s) := here.symm.trans (same.trans found)
      cases here'
      exact .inl (subscribe_whole (watching.pools i s' found) given.symm)

theorem agrees_of_watching (watching : Watching lib x) (served : x.Served lib) (settles : lib.Settles) (gateway : Nat → Bool) :
    x.Agrees lib gateway where
  wakes k i p here s found conn accepted := by
    have member := List.mem_of_getElem? here
    have awake : ¬x.node.stack.Quiet lib TcpState.peered s.pool := fun asleep => by
      rw [s.accept_asleep asleep] at accepted
      cases accepted
    cases p with
    | none => exact absurd (served.gateway i member s found) awake
    | some q =>
      rcases watching.watches i q member s found with whole | ready
      · -- Were its sockets all in the handshake, there would be nothing to accept.
        by_contra asleep
        refine awake fun c there _ => ?_
        have still : x.node.stack.roused lib c = false := by
          have all := List.any_eq_false.1 (Bool.not_eq_true _ ▸ asleep) c (whole ▸ there)
          simpa using all
        by_contra peer
        exact absurd (SocketStack.roused_of_peered (by simpa using peer)) (by simp [still])
      · exact ready
  fruitful i s found listening q given ready := by
    have whole := subscribe_whole (watching.pools i s found) given
    exact s.accept_finds settles watching.bounded
      (served.listener i s found listening (subscribe_pool given).1 (whole ▸ ready))

/-- Along a run whose calls open no socket under a pollable, in every state in which each listener
that has lost a slot has a connection to accept, the pollables and the accepts agree. -/
theorem readiness_agrees (settles : lib.Settles) (ip : Ipv4) (ip6 : Ipv6) {calls : List (SocketCall S)}
    (run : Along (step lib) (fun x call => call.Settled lib ∧ x.Orderly lib call) { node := NetNode.boot ip ip6 } calls) :
    ∀ done, done <+: calls → (done.foldl (step lib) { node := NetNode.boot ip ip6 }).Served lib →
      ∀ gateway, (done.foldl (step lib) { node := NetNode.boot ip ip6 }).Agrees lib gateway := by
  rintro done ⟨rest, rfl⟩ served gateway
  have watching : Watching lib (done.foldl (step lib) { node := NetNode.boot ip ip6 }) :=
    run.append.1.keeps (fun x call met watching => watching.step settles met.1 met.2) (watching_boot ip ip6)
  exact agrees_of_watching watching served settles gateway

end Watched

end Stack

/-! ## Poles -/

namespace Watched

section Poles

open NetNode

theorem plainLib_settles : plainLib.Settles where
  close _ shaking := by cases shaking
  abort _ shaking := by cases shaking
  bind s n s' bound shaking := by
    cases bound
    exact shaking

def start : Watched PlainSock := { node := boot NetNode.node (ula NetNode.node) }

/-- A listener gives out a pollable, its peers connect, and it accepts one of them and gives out
another. -/
def attended : List (SocketCall PlainSock) :=
  [.createTcp .v4, .startBind 0 (.ipv4 NetNode.node, 80), .finishBind 0, .startListen 0, .subscribe 0, handshake, .accept 0,
    .subscribe 0, .shutdown 1]

theorem attended_orderly :
    Along (step plainLib) (fun x call => call.Settled plainLib ∧ x.Orderly plainLib call) start attended := by
  have shaken : (handshake : SocketCall PlainSock).Settled plainLib := by
    intro _ s shaking
    change (plainLib.state (if s.state = .synSent ∨ s.state = .listen then _ else s)).handshaking = true at shaking
    split at shaking
    · cases shaking
    · exact shaking
  refine ⟨⟨trivial, nofun⟩, ⟨trivial, nofun⟩, ⟨trivial, nofun⟩, ⟨trivial, fun _ _ _ _ _ member => by cases member⟩,
    ⟨trivial, nofun⟩, ⟨shaken, nofun⟩, ⟨trivial, nofun⟩, ⟨trivial, nofun⟩, ⟨trivial, nofun⟩, trivial⟩

/-- A check that is enough for the listeners to be served. -/
def checkServed (x : Watched PlainSock) : Bool :=
  (x.node.table.all fun
    | some (.tcp s) => !(s.listening && x.node.stack.eventReady plainLib s.pool) ||
        s.pool.any (x.node.stack.acceptable plainLib s.family)
    | _ => true) && x.obtained.all fun p => p.2.isSome

theorem served_of_check {x : Watched PlainSock} (passed : checkServed x = true) : x.Served plainLib := by
  simp only [checkServed, Bool.and_eq_true, List.all_eq_true] at passed
  refine ⟨fun i s found listening _ ready => ?_, fun i member => ?_⟩
  · have here := passed.1 _ (List.mem_of_getElem? (Option.join_eq_some_iff.1 found))
    simpa [listening, ready] using here
  · exact absurd (passed.2 _ member) (by simp)

theorem readiness_agrees_attended : plainLib.Settles ∧
    ∀ gateway, (attended.foldl (step plainLib) start).Agrees plainLib gateway :=
  ⟨plainLib_settles, readiness_agrees plainLib_settles NetNode.node (ula NetNode.node) attended_orderly attended (List.prefix_refl _)
    (served_of_check (by decide +kernel))⟩

/-- Whether a pollable is ready if an accept would return a connection. -/
def heard (x : Watched PlainSock) (k : Nat) : Bool :=
  match x.obtained[k]? with
  | some (i, some q) =>
    match x.node.resource i with
    | some (.tcp s) => !(s.accept plainLib x.node.stack).2.2.isOk || x.node.stack.eventReady plainLib q.pool
    | _ => true
  | _ => true

theorem Agrees.heard {x : Watched PlainSock} {gateway : Nat → Bool} (agrees : x.Agrees plainLib gateway) (k : Nat) :
    x.heard k = true := by
  simp only [Watched.heard]
  split
  · next i q here =>
      split
      · next s found =>
          cases accepted : (s.accept plainLib x.node.stack).2.2 with
          | error e => rfl
          | ok conn => exact Bool.or_eq_true_iff.2 (.inr (agrees.wakes k i (some q) here s found conn accepted))
      · rfl
  · rfl

/-- Whether a listener that is ready does not put the guest off. -/
def rewarded (x : Watched PlainSock) (i : Nat) : Bool :=
  match x.node.resource i with
  | some (.tcp s) =>
    match s.listening, s.subscribe, (s.accept plainLib x.node.stack).2.2 with
    | true, some q, .error .wouldBlock => !x.node.stack.eventReady plainLib q.pool
    | _, _, _ => true
  | _ => true

theorem Agrees.rewarded {x : Watched PlainSock} {gateway : Nat → Bool} (agrees : x.Agrees plainLib gateway) (i : Nat) :
    x.rewarded i = true := by
  simp only [Watched.rewarded]
  split
  · next s found =>
      split
      · next q listening given blocked =>
          by_contra ready
          exact agrees.fruitful i s found listening q given (by simpa using ready) blocked
      · rfl
  · rfl

/-- The segments of a peer take the socket of slot `h` to `state`. -/
def arrives (h : Nat) (state : TcpState) : SocketCall PlainSock := .poll fun h' s => if h' = h then { s with state } else s

theorem arrives_settled (h : Nat) (state : TcpState) (out : state.handshaking = false) : (arrives h state).Settled plainLib := by
  intro h' s shaking
  dsimp only at shaking
  split at shaking
  · exact absurd shaking (by simp [plainLib, out])
  · exact shaking

/-- A pollable from before the listen, and a peer on the second slot. -/
def early : List (SocketCall PlainSock) :=
  [.createTcp .v4, .startBind 0 (.ipv4 NetNode.node, 80), .finishBind 0, .subscribe 0, .startListen 0,
    arrives 1 .established]

/-- A peer that has connected and closed its side. -/
def finished : List (SocketCall PlainSock) :=
  [.createTcp .v4, .startBind 0 (.ipv4 NetNode.node, 80), .finishBind 0, .startListen 0, .subscribe 0,
    arrives 0 .closeWait]

/-- The early pollable sleeps through the connection, and the finished peer leaves a listener
ready that has nothing to accept. -/
theorem pollable_misses : plainLib.Settles ∧ (∀ call ∈ early ++ finished, call.Settled plainLib) ∧
    ∀ gateway, ¬(early.foldl (step plainLib) start).Agrees plainLib gateway ∧
      ¬(finished.foldl (step plainLib) start).Agrees plainLib gateway := by
  have arrive := And.intro (arrives_settled 1 .established rfl) (arrives_settled 0 .closeWait rfl)
  refine ⟨plainLib_settles, by simpa [early, finished, SocketCall.Settled] using arrive,
    fun gateway => ⟨fun agrees => ?_, fun agrees => ?_⟩⟩
  · have heard := agrees.heard 0
    revert heard
    decide +kernel
  · have rewarded := agrees.rewarded 0
    revert rewarded
    decide +kernel

end Poles

end Watched

end Wk.Fabric
