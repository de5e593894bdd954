/-
# Wk.Fabric.Teardown -- what a dropped listener leaves on its port

A dropped listener's sockets stay in the set until the hub reaps them, and until then a
segment may still reach them.  A 0.3 listener closes every socket of its pool first; a 0.2
listener closes the primary one and leaves the backlog as it is, for the ticks it takes to be
removed by force.

* `sock_closePool`: what closing a pool does to each socket.
* `Quit`: sockets that nobody owns and that are out of their handshake stay so.
* `drop_frees`: when a drop leaves no socket that waits for a peer.

Poles: `backlog_answers` (a 0.2 backlog socket takes a connection after the drop),
`drop_frees_closed`.
-/
import Wk.Fabric.Listeners

namespace Wk.Fabric

open Wk.Library SocketStack

set_option autoImplicit false

variable {S : Type} (lib : SocketLib S) (deliver : Segment → S → S)

/-- A socket that answers a SYN, or has answered one and waits for the rest. -/
def TcpState.waiting (state : TcpState) : Prop := state = .listen ∨ state = .synReceived

theorem TcpState.not_waiting {state : TcpState} (left : state.left = true) : ¬ state.waiting := by
  rintro (rfl | rfl) <;> cases left

/-- A close takes a socket out of its handshake. -/
def SocketLib.Closes : Prop := ∀ s, (lib.state (lib.close s)).left = true

/-- No segment takes a socket back to its handshake. -/
def SocketLib.Stays : Prop := ∀ seg s, (lib.state s).left = true → (lib.state (deliver seg s)).left = true

/-- None of the sockets that a pool had is waiting. -/
def Freed (st st' : SocketStack S) (pool : List Claim) : Prop :=
  ∀ c ∈ pool, st.isCurrent c.1 c.2 = true → ∀ sock, st'.sock c.1 = some sock → ¬ (lib.state sock).waiting

/-- None of the backlog sockets is waiting, the primary one apart. -/
def Spent (st : SocketStack S) (s : TcpSock) : Prop :=
  ∀ c ∈ s.backlog, c ≠ s.claim → st.isCurrent c.1 c.2 = true → ∀ sock, st.sock c.1 = some sock →
    ¬ (lib.state sock).waiting

/-- What may happen once a listener is gone. -/
inductive AfterDrop (S : Type) where
  /-- A segment reaches the socket in slot `h`. -/
  | segment (h : Nat) (seg : Segment)
  | reap
  /-- A socket is added, and used or closed by its owner. -/
  | open' (sock : S)
  | use (c : Claim) (f : S → S)
  | close (c : Claim) (kind : SockKind)

namespace SocketStack

def after (st : SocketStack S) : AfterDrop S → SocketStack S
  | .segment h seg => Serving.deliverTo deliver st h seg
  | .reap => st.reapClosing lib
  | .open' sock => ((st.add sock).1.track (st.add sock).2).1
  | .use c f => if st.isCurrent c.1 c.2 then st.access c.2 c.1 f else st
  | .close c kind => if st.isCurrent c.1 c.2 then st.beginClose c.2 c.1 kind else st

/-- The sockets of these generations have no owner, and are out of their handshake. -/
structure Quit (gens : List Nat) (st : SocketStack S) : Prop where
  sound : st.Sound
  dated : ∀ g ∈ gens, g < st.nextGen
  dead : ∀ h g, st.live h = some g → g ∉ gens
  left : ∀ h slot, st.slots h = some slot → slot.gen ∈ gens → (lib.state slot.sock).left = true

variable {lib deliver} {st : SocketStack S} {gens : List Nat}

/-! ## Closing a pool -/

/-- A socket of the pool is in the slot, and current. -/
def Named (st : SocketStack S) (pool : List Claim) (h : Nat) : Prop := ∃ c ∈ pool, c.1 = h ∧ st.live h = some c.2

theorem live_beginClose_current {c : Claim} (current : st.live c.1 = some c.2) (kind : SockKind) :
    (st.beginClose c.2 c.1 kind).live = Function.update st.live c.1 none := by
  rw [beginClose, current]

/-- A socket of the pool that is current is closed, if the pool's are; the others are left. -/
theorem sock_closePool (f : Option (S → S)) (h : Nat) : ∀ (pool : List Claim) (st : SocketStack S),
    (st.Named pool h → (st.closePool f pool).sock h = (st.sock h).map (f.getD id)) ∧
      (¬ st.Named pool h → (st.closePool f pool).sock h = st.sock h)
  | [], _ => ⟨nofun, fun _ => rfl⟩
  | c :: pool, st => by
    simp only [closePool]
    split
    · next current =>
        have live := isCurrent_iff.1 current
        -- The socket of `c` is not current any more, and what there was to do with it is done.
        have turn : ∀ st' : SocketStack S, st'.live = st.live →
            (∀ h, st'.sock h = if h = c.1 then (st.sock h).map (f.getD id) else st.sock h) →
            (st.Named (c :: pool) h →
              ((st'.beginClose c.2 c.1 .tcp).closePool f pool).sock h = (st.sock h).map (f.getD id)) ∧
            (¬ st.Named (c :: pool) h → ((st'.beginClose c.2 c.1 .tcp).closePool f pool).sock h = st.sock h) := by
          intro st' live' sock
          obtain ⟨named, unnamed⟩ := sock_closePool f h pool (st'.beginClose c.2 c.1 .tcp)
          rw [sock_beginClose, sock] at named unnamed
          have after : (st'.beginClose c.2 c.1 .tcp).live = Function.update st.live c.1 none :=
            live' ▸ live_beginClose_current (live' ▸ live) .tcp
          by_cases here : h = c.1
          · subst here
            have gone : ¬ (st'.beginClose c.2 c.1 .tcp).Named pool c.1 := by
              rintro ⟨c', -, -, live'⟩
              simp [after] at live'
            exact ⟨fun _ => (unnamed gone).trans (if_pos rfl), fun absent => absurd ⟨c, List.mem_cons_self, rfl, live⟩ absent⟩
          · have same : st.Named (c :: pool) h ↔ (st'.beginClose c.2 c.1 .tcp).Named pool h := by
              simp [Named, after, Function.update_of_ne here, Ne.symm here]
            rw [if_neg here] at named unnamed
            exact ⟨fun member => named (same.1 member), fun absent => unnamed (mt same.2 absent)⟩
        cases f with
        | none => exact turn st rfl fun h => by simp
        | some f => exact turn _ rfl (sock_access st c.2 c.1 f)
    · next stale =>
        have same : st.Named (c :: pool) h ↔ st.Named pool h := by
          simp only [Named, List.mem_cons, exists_eq_or_imp, or_iff_right_iff_imp]
          rintro ⟨rfl, live⟩
          exact absurd (isCurrent_iff.2 live) stale
        rw [same]
        exact sock_closePool f h pool st

/-- A pool whose current sockets are closed one by one is not waiting. -/
theorem freed_closePool (closes : lib.Closes) (st : SocketStack S) (pool : List Claim) :
    Freed lib st (st.closePool (some lib.close) pool) pool := by
  intro c member current sock here
  rw [(sock_closePool _ _ pool st).1 ⟨c, member, rfl, isCurrent_iff.1 current⟩] at here
  obtain ⟨sock', -, rfl⟩ := Option.map_eq_some_iff.1 here
  exact TcpState.not_waiting (closes sock')

/-- What a drop does to each socket of a 0.2 listener: the primary one is closed. -/
theorem sock_drop (st : SocketStack S) (s : TcpSock) (h : Nat) :
    (s.drop lib st).sock h =
      if h = s.handle ∧ st.isCurrent s.handle s.gen = true then (st.sock h).map lib.close else st.sock h := by
  have kept : (s.drop lib st).sock h = (st.closeCurrent lib s.claim).sock h := by
    obtain ⟨named, unnamed⟩ := sock_closePool none h s.backlog ((st.closeCurrent lib s.claim).beginClose s.gen s.handle .tcp)
    rw [← sock_beginClose (st.closeCurrent lib s.claim) s.gen s.handle .tcp]
    by_cases member : ((st.closeCurrent lib s.claim).beginClose s.gen s.handle .tcp).Named s.backlog h
    · exact (named member).trans (by simp)
    · exact unnamed member
  rw [kept, closeCurrent]
  by_cases current : st.isCurrent s.handle s.gen = true
  · simp [TcpSock.claim, current, sock_access]
  · simp [TcpSock.claim, current]

/-- One slot has one current claim. -/
theorem current_inj {c d : Claim} (current : st.isCurrent c.1 c.2 = true) (current' : st.isCurrent d.1 d.2 = true)
    (same : c.1 = d.1) : c = d := by
  have live := isCurrent_iff.1 current
  rw [same, isCurrent_iff.1 current'] at live
  exact Prod.ext same (Option.some.inj live).symm

/-- A drop of a 0.2 listener frees its port exactly when its backlog is spent. -/
theorem freed_drop_iff (closes : lib.Closes) (st : SocketStack S) (s : TcpSock) :
    Freed lib st (s.drop lib st) s.pool ↔ Spent lib st s := by
  constructor
  · intro freed c backlog other current sock here
    refine freed c (List.mem_cons_of_mem _ backlog) current sock ?_
    rw [sock_drop, if_neg, here]
    exact fun ⟨same, primary⟩ => other (current_inj (d := s.claim) current primary same)
  · intro spent c member current sock here
    rw [sock_drop] at here
    by_cases primary : c = s.claim
    · subst primary
      rw [if_pos ⟨rfl, current⟩] at here
      obtain ⟨sock', -, rfl⟩ := Option.map_eq_some_iff.1 here
      exact TcpState.not_waiting (closes sock')
    · rw [if_neg fun ⟨same, there⟩ => primary (current_inj (d := s.claim) current there same)] at here
      exact spent c ((List.mem_cons.1 member).resolve_left primary) primary current sock here

/-! ## What is left stays quiet -/

/-- The reaper takes sockets out, and leaves the others as they are. -/
theorem slots_reapAll {h : Nat} {slot : Slot S} : ∀ (cs : List Closing) (st : SocketStack S),
    (st.reapAll lib cs).1.slots h = some slot → st.slots h = some slot
  | [], _, here => here
  | c :: cs, st, here => by
    have later := slots_reapAll cs (st.reapOne lib c).1 here
    obtain ⟨touched, looked⟩ := Looked.access st c.gen c.handle
    simp only [reapOne, looked] at later
    split at later
    · simp only [remove, Function.update_apply] at later
      split at later
      · cases later
      · exact later
    · exact later

theorem Quit.step (settles : lib.Stays deliver) (quit : st.Quit lib gens) (e : AfterDrop S) :
    (st.after lib deliver e).Quit lib gens := by
  cases e with
  | segment h seg =>
    refine ⟨Sound.poll quit.sound fun h' s => if h' = h then deliver seg s else s, quit.dated, quit.dead,
      fun h' slot here member => ?_⟩
    obtain ⟨slot', there, rfl⟩ := Option.map_eq_some_iff.1 here
    have left := quit.left h' slot' there member
    dsimp only
    split
    · exact settles seg _ left
    · exact left
  | reap =>
    refine ⟨quit.sound.reapClosing lib, fun g member => ?_, fun h g live => ?_, fun h slot here => ?_⟩
    · exact (quit.dated g member).trans_eq (nextGen_reapAll lib st.closing st).symm
    · exact quit.dead h g ((congrFun (live_reapAll lib st.closing st) h).symm.trans live)
    · exact quit.left h slot (slots_reapAll st.closing st here)
  | open' sock =>
    have new : st.nextGen ∉ gens := fun member => Nat.lt_irrefl _ (quit.dated _ member)
    refine ⟨quit.sound.addTracked sock, fun g member => Nat.lt_succ_of_lt (quit.dated g member), fun h g live => ?_,
      fun h slot here member => ?_⟩
    · simp only [after, track, Function.update_apply] at live
      split at live
      · exact Option.some.inj live ▸ new
      · exact quit.dead h g live
    · simp only [after, track, add, Function.update_apply] at here
      split at here
      · cases here
        exact absurd member new
      · exact quit.left h slot here member
  | use c f =>
    simp only [after]
    split
    · next current =>
        have live := isCurrent_iff.1 current
        refine ⟨quit.sound.access (quit.sound.live _ _ live) f, quit.dated, quit.dead, fun h slot here member => ?_⟩
        simp only [access, Function.update_apply] at here
        split at here
        · -- The socket that is used is its owner's, of another generation.
          obtain ⟨slot', there, rfl⟩ := Option.map_eq_some_iff.1 here
          have gen := quit.sound.live _ _ live
          simp only [SocketStack.gens, there, Option.map_some, Option.some.injEq] at gen
          exact absurd member (gen ▸ quit.dead _ _ live)
        · exact quit.left h slot here member
    · exact quit
  | close c kind =>
    simp only [after]
    split
    · next current =>
        have live := isCurrent_iff.1 current
        have sound := quit.sound.beginClose live kind
        simp only [beginClose, live] at sound ⊢
        refine ⟨sound, quit.dated, fun h g live' => ?_, quit.left⟩
        simp only [Function.update_apply] at live'
        split at live'
        · cases live'
        · exact quit.dead h g live'
    · exact quit

theorem Quit.run (settles : lib.Stays deliver) (quit : st.Quit lib gens) (events : List (AfterDrop S)) :
    (events.foldl (after lib deliver) st).Quit lib gens := by
  induction events generalizing st with
  | nil => exact quit
  | cons e events ih => exact ih (quit.step settles e)

/-- What closing a pool leaves alive. -/
theorem closePool_live (f : Option (S → S)) : ∀ (pool : List Claim) {st : SocketStack S}, st.Sound →
    (st.closePool f pool).Sound ∧ (st.closePool f pool).gens = st.gens ∧ (st.closePool f pool).nextGen = st.nextGen ∧
      ∀ h g, (st.closePool f pool).live h = some g → st.live h = some g ∧ ¬ st.Named pool h
  | [], _, sound => ⟨sound, rfl, rfl, fun _ _ live => ⟨live, nofun⟩⟩
  | c :: pool, st, sound => by
    simp only [closePool]
    split
    · next current =>
        have live := isCurrent_iff.1 current
        have turn : ∀ st' : SocketStack S, st'.Sound → st'.live = st.live → st'.gens = st.gens → st'.nextGen = st.nextGen →
            ((st'.beginClose c.2 c.1 .tcp).closePool f pool).Sound ∧
            ((st'.beginClose c.2 c.1 .tcp).closePool f pool).gens = st.gens ∧
            ((st'.beginClose c.2 c.1 .tcp).closePool f pool).nextGen = st.nextGen ∧
            ∀ h g, ((st'.beginClose c.2 c.1 .tcp).closePool f pool).live h = some g →
              st.live h = some g ∧ ¬ st.Named (c :: pool) h := by
          intro st' sound' live' gens' nextGen'
          have after : (st'.beginClose c.2 c.1 .tcp).live = Function.update st.live c.1 none :=
            live' ▸ live_beginClose_current (live' ▸ live) .tcp
          have nextGen : (st'.beginClose c.2 c.1 .tcp).nextGen = st'.nextGen := by
            simp only [beginClose]
            split <;> rfl
          obtain ⟨rest, gens, dated, lives⟩ := closePool_live f pool (sound'.beginClose (live' ▸ live) .tcp)
          refine ⟨rest, gens.trans ((gens_beginClose ..).trans gens'), dated.trans (nextGen.trans nextGen'),
            fun h g there => ?_⟩
          obtain ⟨was, unnamed⟩ := lives h g there
          simp only [after, Function.update_apply] at was
          split at was
          · cases was
          · next other =>
              refine ⟨was, ?_⟩
              rintro ⟨c', member, same, live'⟩
              rcases List.mem_cons.1 member with rfl | later
              · exact other same.symm
              · exact unnamed ⟨c', later, same, by simp [after, other, live']⟩
        cases f with
        | none => exact turn st sound rfl rfl rfl
        | some f => exact turn _ (sound.access (sound.live _ _ live) f) rfl (gens_access ..) rfl
    · next stale =>
        obtain ⟨rest, gens, dated, lives⟩ := closePool_live f pool sound
        refine ⟨rest, gens, dated, fun h g there => ?_⟩
        obtain ⟨was, unnamed⟩ := lives h g there
        refine ⟨was, ?_⟩
        rintro ⟨c', member, same, live'⟩
        rcases List.mem_cons.1 member with rfl | later
        · exact stale (isCurrent_iff.2 (same ▸ live'))
        · exact unnamed ⟨c', later, same, live'⟩

/-- The generations of the current sockets of a pool. -/
def gensOf (st : SocketStack S) (pool : List Claim) : List Nat :=
  (pool.filter fun c => st.isCurrent c.1 c.2).map Prod.snd

theorem mem_gensOf {pool : List Claim} {g : Nat} :
    g ∈ st.gensOf pool ↔ ∃ c ∈ pool, st.live c.1 = some c.2 ∧ c.2 = g := by
  simp [gensOf, isCurrent_iff, and_assoc]

/-- Sockets of a pool that are closed, none of them in its handshake, stay so. -/
theorem quit_of_closed {st' : SocketStack S} {pool : List Claim} (sound : st.Sound) (sound' : st'.Sound)
    (gens' : st'.gens = st.gens) (nextGen' : st'.nextGen = st.nextGen)
    (dead : ∀ h g, st'.live h = some g → st.live h = some g ∧ ¬ st.Named pool h)
    (left : ∀ c ∈ pool, st.live c.1 = some c.2 → ∀ sock, st'.sock c.1 = some sock → (lib.state sock).left = true) :
    st'.Quit lib (st.gensOf pool) := by
  refine ⟨sound', fun g member => ?_, fun h g live member => ?_, fun h slot here member => ?_⟩
  · obtain ⟨c, -, live, rfl⟩ := mem_gensOf.1 member
    exact nextGen' ▸ (sound.bounded _ _ (sound.live _ _ live)).2
  · obtain ⟨was, unnamed⟩ := dead h g live
    obtain ⟨c, listed, live', rfl⟩ := mem_gensOf.1 member
    have same := sound.apart _ _ _ (sound.live _ _ was) (sound.live _ _ live')
    exact unnamed ⟨c, listed, same.symm, was⟩
  · obtain ⟨c, listed, live', gen⟩ := mem_gensOf.1 member
    have there : st'.gens h = some slot.gen := by rw [gens, here, Option.map_some]
    rw [gens', ← gen] at there
    obtain rfl := sound.apart _ _ _ there (sound.live _ _ live')
    exact left c listed live' slot.sock (by rw [SocketStack.sock, here, Option.map_some])

/-- A 0.2 listener is dropped while no backlog socket is in its handshake. -/
theorem quit_drop (closes : lib.Closes) (sound : st.Sound) {s : TcpSock} (live : st.live s.handle = some s.gen)
    (past : ∀ c ∈ s.backlog, c ≠ s.claim → st.live c.1 = some c.2 → ∀ sock, st.sock c.1 = some sock →
      (lib.state sock).left = true) : (s.drop lib st).Quit lib (st.gensOf s.pool) := by
  have current : st.isCurrent s.claim.1 s.claim.2 = true := isCurrent_iff.2 live
  have drop : s.drop lib st = (st.closePool (some lib.close) [s.claim]).closePool none s.backlog := by
    simp only [TcpSock.drop, closePool, closeCurrent, current, if_true]
    rfl
  obtain ⟨sound₁, gens₁, next₁, live₁⟩ := closePool_live (some lib.close) [s.claim] sound
  obtain ⟨sound₂, gens₂, next₂, live₂⟩ := closePool_live none s.backlog sound₁
  rw [← drop] at sound₂ gens₂ next₂ live₂
  refine quit_of_closed sound sound₂ (gens₂.trans gens₁) (next₂.trans next₁) (fun h g there => ?_)
    fun c member live' sock here => ?_
  · obtain ⟨mid, unnamed⟩ := live₂ h g there
    obtain ⟨was, primary⟩ := live₁ h g mid
    refine ⟨was, ?_⟩
    rintro ⟨c, member, same, live'⟩
    rcases List.mem_cons.1 member with rfl | backlog
    · exact primary ⟨s.claim, List.mem_singleton_self _, same, live'⟩
    · exact unnamed ⟨c, backlog, same, mid.trans (was.symm.trans live')⟩
  · rw [sock_drop] at here
    by_cases primary : c = s.claim
    · subst primary
      rw [if_pos ⟨rfl, current⟩] at here
      obtain ⟨sock', -, rfl⟩ := Option.map_eq_some_iff.1 here
      exact closes sock'
    · rw [if_neg fun both => primary (current_inj (d := s.claim) (isCurrent_iff.2 live') both.2 both.1)] at here
      exact past c ((List.mem_cons.1 member).resolve_left primary) primary live' sock here

/-- A pool whose sockets are closed one by one stays quiet. -/
theorem quit_closePool (closes : lib.Closes) (sound : st.Sound) (pool : List Claim) :
    (st.closePool (some lib.close) pool).Quit lib (st.gensOf pool) := by
  obtain ⟨sound', gens', next', live'⟩ := closePool_live (some lib.close) pool sound
  refine quit_of_closed sound sound' gens' next' live' fun c member live sock here => ?_
  rw [(sock_closePool _ _ pool st).1 ⟨c, member, rfl, live⟩] at here
  obtain ⟨sock', -, rfl⟩ := Option.map_eq_some_iff.1 here
  exact closes sock'

end SocketStack

/-- **When a drop frees the port**, in any state of the stack: a 0.2 listener leaves no socket
of its pool waiting exactly when its backlog is spent, and a 0.3 listener leaves none; and a
socket of the pool that is out of its handshake then stays out of it, and without an owner,
whatever segments reach it and whatever others do with their sockets. -/
theorem drop_frees (closes : lib.Closes) (settles : lib.Stays deliver) :
    (∀ (st : SocketStack S) (s : TcpSock), Freed lib st (s.drop lib st) s.pool ↔ Spent lib st s) ∧
    (∀ (st : SocketStack S) (s : TcpSocket) (p : Nat) (pools : List (List Claim)), s.pool = some p →
      Freed lib st (s.drop lib st pools) (pools.getD p [])) ∧
    (∀ (st : SocketStack S) (s : TcpSock), st.Sound → st.live s.handle = some s.gen →
      (∀ c ∈ s.backlog, c ≠ s.claim → st.live c.1 = some c.2 → ∀ sock, st.sock c.1 = some sock →
        (lib.state sock).left = true) →
      ∀ events : List (AfterDrop S), (events.foldl (after lib deliver) (s.drop lib st)).Quit lib (st.gensOf s.pool)) ∧
    (∀ (st : SocketStack S) (s : TcpSocket) (p : Nat) (pools : List (List Claim)), st.Sound → s.pool = some p →
      ∀ events : List (AfterDrop S), (events.foldl (after lib deliver) (s.drop lib st pools)).Quit lib (st.gensOf (pools.getD p []))) := by
  have drop : ∀ (st : SocketStack S) (s : TcpSocket) p pools, s.pool = some p →
      s.drop lib st pools = st.closePool (some lib.close) (pools.getD p []) := by
    intro st s p pools pooled
    simp [TcpSocket.drop, pooled]
  refine ⟨freed_drop_iff closes, fun st s p pools pooled => ?_, fun st s sound live past events => ?_,
    fun st s p pools sound pooled events => ?_⟩
  · rw [drop st s p pools pooled]
    exact freed_closePool closes st _
  · exact (quit_drop closes sound live past).run settles events
  · rw [drop st s p pools pooled]
    exact (quit_closePool closes sound _).run settles events

/-! ## Poles -/

section Poles

open Serving

theorem wireLib_closes : wireLib.Closes := fun _ => rfl

theorem wire_settles : wireLib.Stays wire := by
  intro seg s left
  have past : s.state ≠ .listen ∧ s.state ≠ .synReceived := by
    constructor <;>
      · intro state
        rw [show wireLib.state s = s.state from rfl, state] at left
        cases left
  cases seg <;> simp only [wire, past.1, past.2, false_and, if_false, false_or]
  all_goals
    first
      | exact left
      | split
        · rfl
        · exact left

/-- The 0.2 socket that listens on port 80. -/
def web2 : TcpSock := (webSock.startListen wireLib oneSocket).2.1

/-- Its stack once it was dropped. -/
def dropped2 : SocketStack WireSock := web2.drop wireLib listening2.st

/-- A 0.2 listener nobody connected to is dropped: the second socket of its pool, which nobody
owns, still listens, and takes a connection. -/
theorem backlog_answers : wireLib.Closes ∧ wireLib.Stays wire ∧
    ¬ Freed wireLib listening2.st dropped2 web2.pool ∧ dropped2.live 1 = none ∧
    ((dropped2.after wireLib wire (.segment 1 (.syn web peer))).sock 1).map WireSock.state = some .synReceived := by
  refine ⟨wireLib_closes, wire_settles, fun freed => ?_, by decide +kernel, by decide +kernel⟩
  have listens : dropped2.sock 1 = some { state := .listen, listening := { addr := some web.1, port := 80 } } := by
    decide +kernel
  exact freed (1, 1) (by decide +kernel) (by decide +kernel) _ listens (.inl rfl)

theorem unpooled : (none : Option Nat).isSome = true → false = true := id

/-- The 0.3 socket that listens there, with its stack and its pool. -/
def web3 : SocketStack WireSock × TcpSocket × Nat × Except ErrorCode (AcceptProducer × List Claim) :=
  TcpSocket.listen wireLib
    { handle := 0, gen := 0, family := .v4, bound := true, boundPort := 80, localAddress := some web, pooled := unpooled }
    oneSocket 49152 0

def pool3 : List Claim := (web3.2.2.2.toOption.map Prod.snd).getD []

theorem drop_frees_closed : pool3.length = 64 ∧ Freed wireLib web3.1 (web3.2.1.drop wireLib web3.1 [pool3]) pool3 := by
  have pooled : web3.2.1.pool = some 0 := by decide +kernel
  have freed := (drop_frees wireLib wire wireLib_closes wire_settles).2.1 web3.1 web3.2.1 0 [pool3] pooled
  rw [List.getD_cons_zero] at freed
  exact ⟨by decide +kernel, freed⟩

end Poles

end Wk.Fabric
