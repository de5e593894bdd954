/-
# Wk.Fabric.Owners -- who owns the sockets of a stack

A call that takes the bare handle of its resource is safe only while that handle is live,
and a live handle is closed only if something still has it.

* `NetNode.Good`: every live handle is claimed once, by a resource or a pool slot, and
  what a resource claims for itself is live.
* `run_owned`: a run of `Careful` calls keeps it, and what is closed is removed once.

Pole: `recycled_slot_closed` (`accept` on a connected socket leaves it with a handle that
is another socket's later on).
-/
import Wk.Fabric.Resources

namespace Wk.Fabric

open Wk.Library

set_option autoImplicit false

/-! ## Claims -/

/-- What a 0.3 socket itself claims: nothing once its sockets are in a pool. -/
def TcpSocket.claims (s : TcpSocket) : List Claim := if s.pool.isSome then [] else [s.claim]

def Produced.claims : Produced → List Claim
  | .accepted s => s.claims
  | _ => []

/-- The claims a resource uses without a check. -/
def Resource.held : Resource → List Claim
  | .tcp s => [s.claim]
  | .tcp3 s => s.claims
  | .udp s => [s.claim]
  | .udp3 s => [s.claim]

/-- The slots of the pool a 0.2 listener keeps. -/
def Resource.spare : Resource → List Claim
  | .tcp s => s.backlog
  | _ => []

namespace NetNode

variable {S : Type} (w : NetNode S)

/-- What the resources of a table claim for themselves. -/
def heldIn (table : List (Option Resource)) : List Claim :=
  table.flatMap fun r => r.elim [] Resource.held

/-- What the pools of the listeners in a table claim. -/
def spareIn (table : List (Option Resource)) : List Claim :=
  table.flatMap fun r => r.elim [] Resource.spare

def held : List Claim := heldIn w.table

/-- What the pools claim, those of 0.2 listeners and the shared ones. -/
def spare : List Claim := spareIn w.table ++ w.pools.flatten

end NetNode

/-! ## What the pool operations keep -/

namespace SocketStack

variable {S : Type} (lib : SocketLib S)

theorem sock_access (st : SocketStack S) (gen h : Nat) (f : S → S) (h' : Nat) :
    (st.access gen h f).sock h' = if h' = h then (st.sock h').map f else st.sock h' := by
  simp only [sock, access, Function.update_apply]
  split
  · next same =>
      subst same
      cases st.slots h' <;> rfl
  · rfl

@[simp] theorem sock_access_id (st : SocketStack S) (gen h : Nat) : (st.access gen h id).sock = st.sock := by
  funext h'
  rw [sock_access, Option.map_id, id_eq, ite_self]

theorem sock_add (st : SocketStack S) (sock : S) (h : Nat) :
    (st.add sock).1.sock h = if h = st.freeSlot then some sock else st.sock h := by
  simp only [SocketStack.sock, add, Function.update_apply]
  split <;> rfl

@[simp] theorem sock_beginClose (st : SocketStack S) (gen h : Nat) (kind : SockKind) :
    (st.beginClose gen h kind).sock = st.sock := by
  simp only [beginClose]
  split <;> rfl

theorem isCurrent_iff {st : SocketStack S} {c : Claim} :
    st.isCurrent c.1 c.2 = true ↔ st.live c.1 = some c.2 := by
  simp [isCurrent]

/-- A listen on a fresh socket succeeds. -/
theorem fresh_ok (st : SocketStack S) {ep : IpListenEndpoint}
    (listens : (lib.listen lib.tcp ep).isSome = true) : (st.fresh lib ep).2.2 = true := by
  have added : ((st.add lib.tcp).1.track (st.add lib.tcp).2).1.sock (st.add lib.tcp).2 =
      some lib.tcp := by
    change Option.map _ (Function.update st.slots st.freeSlot _ st.freeSlot) = _
    rw [Function.update_self]
    rfl
  change ((((st.add lib.tcp).1.track (st.add lib.tcp).2).1.sock (st.add lib.tcp).2).bind _).isSome = _
  rw [added]
  exact listens

/-- A slot is armed again on the listener's port. -/
theorem relistenEp_port (st : SocketStack S) (sock : Option S) (family : IpFamily) (port : Nat) :
    (st.relistenEp lib sock family port).port = port := by
  unfold relistenEp
  split
  · rfl
  · cases family <;> rfl

/-- No current socket of a pool has a peer. -/
def Quiet (st : SocketStack S) (peered : TcpState → Bool) (pool : List Claim) : Prop :=
  ∀ c ∈ pool, st.isCurrent c.1 c.2 = true → ((st.sock c.1).map lib.state).any peered = false

section Quiet

variable {lib} {peered : TcpState → Bool} {family : IpFamily} {port : Nat} {st st' : SocketStack S}

theorem Quiet.congr {pool : List Claim} (quiet : st.Quiet lib peered pool) (live : st'.live = st.live)
    (sock : st'.sock = st.sock) : st'.Quiet lib peered pool := by
  intro c member current
  rw [sock]
  refine quiet c member ?_
  rwa [isCurrent_iff, live, ← isCurrent_iff] at current

variable (family port) in
/-- Where no socket of the pool has a peer, nothing is refused. -/
theorem refuseAll_quiet : ∀ {pool : List Claim} {st : SocketStack S}, st.Quiet lib peered pool →
    (st.refuseAll lib peered family port pool).2 = pool ∧
      (st.refuseAll lib peered family port pool).1.live = st.live ∧
      (st.refuseAll lib peered family port pool).1.sock = st.sock
  | [], _, _ => ⟨rfl, rfl, rfl⟩
  | c :: pool, st, quiet => by
    have one : (st.refuse lib peered family port c).2 = c ∧
        (st.refuse lib peered family port c).1.live = st.live ∧
        (st.refuse lib peered family port c).1.sock = st.sock := by
      unfold refuse
      split
      · exact ⟨rfl, rfl, rfl⟩
      · next current =>
          have alone := quiet c (List.mem_cons_self ..) (by simpa using current)
          dsimp only
          rw [if_pos (by rw [alone]; rfl)]
          exact ⟨rfl, rfl, sock_access_id st c.2 c.1⟩
    have rest : (st.refuse lib peered family port c).1.Quiet lib peered pool :=
      Quiet.congr (fun c' member => quiet c' (List.mem_cons_of_mem _ member)) one.2.1 one.2.2
    obtain ⟨same, live, sock⟩ := refuseAll_quiet rest
    refine ⟨?_, live.trans one.2.1, sock.trans one.2.2⟩
    change (st.refuse lib peered family port c).2 :: _ = _
    rw [one.1]
    exact congrArg (c :: ·) same

variable (lib peered) in
/-- The position found is that of a current socket with a peer. -/
theorem position_spec : ∀ (pool : List Claim) (st : SocketStack S),
    (st.position lib peered pool).1.live = st.live ∧
      ∀ idx, (st.position lib peered pool).2 = some idx →
        ∃ c, pool[idx]? = some c ∧ st.isCurrent c.1 c.2 = true ∧
          ((st.sock c.1).map lib.state).any peered = true
  | [], _ => ⟨rfl, nofun⟩
  | c :: pool, st => by
    unfold position
    split
    · next current =>
        dsimp only
        split
        · next found =>
            refine ⟨rfl, fun idx same => ?_⟩
            cases same
            exact ⟨c, rfl, current, by rwa [Option.any_map]⟩
        · obtain ⟨live, spec⟩ := position_spec pool (st.access c.2 c.1 id)
          refine ⟨live, fun idx same => ?_⟩
          obtain ⟨idx', there, rfl⟩ := Option.map_eq_some_iff.1 same
          obtain ⟨c', at', current', peer⟩ := spec idx' there
          exact ⟨c', at', current', by rwa [sock_access_id] at peer⟩
    · obtain ⟨live, spec⟩ := position_spec pool st
      refine ⟨live, fun idx same => ?_⟩
      obtain ⟨idx', there, rfl⟩ := Option.map_eq_some_iff.1 same
      exact spec idx' there

end Quiet

namespace Owned

variable {lib} {old st : SocketStack S} {held spare : List Claim} {c : Claim}
  {peered : TcpState → Bool} {family : IpFamily} {port : Nat}

/-- The owner of a held claim uses its socket, with no check. -/
theorem use (owned : Owned old st (c :: held) spare) (f : S → S) :
    Owned old (st.access c.2 c.1 f) (c :: held) spare :=
  owned.access (owned.current c (List.mem_cons_self ..)) f

theorem attempt (owned : Owned old st (c :: held) spare) (f : S → Option S) :
    Owned old (st.attempt c.2 c.1 f).1 (c :: held) spare :=
  owned.use fun s => (f s).getD s

variable (lib) in
theorem fresh (owned : Owned old st held spare) (ep : IpListenEndpoint) :
    Owned old (st.fresh lib ep).1 ((st.fresh lib ep).2.1 :: held) spare :=
  (owned.addTracked lib.tcp).attempt fun s => lib.listen s ep

variable (lib) in
theorem arm {eps : List IpListenEndpoint} : ∀ {is : List Nat} {st : SocketStack S} {held : List Claim},
    Owned old st held spare →
    Owned old (st.arm lib eps is).1 held ((st.arm lib eps is).2 ++ spare)
  | [], _, _, owned => owned
  | i :: is, st, held, owned => by
    have next := owned.fresh lib (eps.getD (i % eps.length) ⟨none, 0⟩)
    unfold SocketStack.arm
    dsimp only
    split
    · exact (arm next).spared
    · exact arm (next.close .tcp)

/-- A pool slot is refused its peer: it stays a pool slot, be it a stale one. -/
theorem refuse (owned : Owned old st held (c :: spare)) :
    Owned old (st.refuse lib peered family port c).1 held
      ((st.refuse lib peered family port c).2 :: spare) := by
  unfold SocketStack.refuse
  split
  · exact owned
  · next current =>
      simp only [Bool.not_eq_true, Bool.not_eq_false', isCurrent_iff] at current
      have looked := (owned.taken current).use id
      dsimp only
      split
      · exact looked.spared
      · have aborted := looked.use lib.abort
        split
        · exact ((aborted.close .tcp).fresh lib _).spared
        · exact ((aborted.beginClose .tcp).fresh lib _).close .tcp

/-- The socket of a resource is refused its peer, and replaced. -/
theorem refuse_held (owned : Owned old st (c :: held) spare)
    (listens : ((st.sock c.1).map lib.state).any peered = true → ∀ ep, ep.port = port →
      (lib.listen lib.tcp ep).isSome = true) :
    Owned old (st.refuse lib peered family port c).1
      ((st.refuse lib peered family port c).2 :: held) spare := by
  unfold SocketStack.refuse
  split
  · exact owned
  · have looked := owned.use id
    dsimp only
    split
    · exact looked
    · next refused =>
        simp only [Bool.or_eq_true, Bool.not_eq_true', not_or, Bool.not_eq_false] at refused
        have aborted := looked.use lib.abort
        rw [if_pos (fresh_ok lib _ (listens refused.1 _ (relistenEp_port ..)))]
        exact (aborted.close .tcp).fresh lib _

theorem refuseAll : ∀ {pool spare : List Claim} {st : SocketStack S},
    Owned old st held (pool ++ spare) →
      Owned old (st.refuseAll lib peered family port pool).1 held
        ((st.refuseAll lib peered family port pool).2 ++ spare)
  | [], _, _, owned => owned
  | c :: pool, spare, st, owned => by
    have first : Owned old (st.refuse lib peered family port c).1 held _ := owned.refuse
    have rest := refuseAll (first.congr (.refl _) List.perm_middle.symm)
    exact rest.congr (.refl _) List.perm_middle

variable (lib peered) in
theorem position : ∀ (pool : List Claim) {st : SocketStack S},
    Owned old st held spare → Owned old (st.position lib peered pool).1 held spare
  | [], _, owned => owned
  | c :: pool, st, owned => by
    unfold SocketStack.position
    split
    · next current =>
        have looked := owned.access (isCurrent_iff.1 current) id
        dsimp only
        split
        · exact looked
        · exact position pool looked
    · exact position pool owned

/-- A live pool socket leaves its slot and becomes the socket of a resource. -/
theorem takeSlot {pool : List Claim} {idx : Nat} (owned : Owned old st held (pool ++ spare))
    (slot : pool[idx]? = some c) (live : st.live c.1 = some c.2) :
    Owned old st (c :: held) (pool.eraseIdx idx ++ spare) := by
  obtain ⟨bound, rfl⟩ := List.getElem?_eq_some_iff.1 slot
  have perm := (List.getElem_cons_eraseIdx_perm bound).symm.append_right spare
  exact (owned.congr (.refl _) perm).taken live

/-- A socket takes the slot. -/
theorem fillSlot {pool : List Claim} {idx : Nat}
    (owned : Owned old st (c :: held) (pool.eraseIdx idx ++ spare)) (bound : idx < pool.length) :
    Owned old st held (pool.set idx c ++ spare) :=
  owned.spared.congr (.refl _) ((List.set_perm_cons_eraseIdx bound c).symm.append_right spare)

/-- A pool is closed with its owner. -/
theorem closePool {f : Option (S → S)} : ∀ {pool : List Claim} {st : SocketStack S},
    Owned old st held (pool ++ spare) → Owned old (st.closePool f pool) held spare
  | [], _, owned => owned
  | c :: pool, st, owned => by
    unfold SocketStack.closePool
    split
    · next current =>
        have taken := owned.taken (isCurrent_iff.1 current)
        cases f with
        | none => exact closePool (taken.close .tcp)
        | some f => exact closePool ((taken.use f).close .tcp)
    · next stale => exact closePool (owned.lapse fun live => stale (isCurrent_iff.2 live))

/-- A shared pool is closed, and keeps its stale slots. -/
theorem closeShared {f : Option (S → S)} : ∀ {pool spare : List Claim} {st : SocketStack S},
    Owned old st held (pool ++ spare) → Owned old (st.closePool f pool) held (pool ++ spare)
  | [], _, _, owned => owned
  | c :: pool, spare, st, owned => by
    have rest : ∀ {st : SocketStack S}, Owned old st held (c :: pool ++ spare) →
        Owned old (st.closePool f pool) held (c :: pool ++ spare) := fun owned =>
      (closeShared (owned.congr (.refl _) List.perm_middle.symm)).congr (.refl _) List.perm_middle
    unfold SocketStack.closePool
    split
    · next current =>
        have taken := owned.taken (isCurrent_iff.1 current)
        cases f with
        | none => exact rest (taken.beginClose .tcp)
        | some f => exact rest ((taken.use f).beginClose .tcp)
    · exact rest owned

variable (lib) in
theorem closeCurrent (owned : Owned old st (c :: held) spare) :
    Owned old (st.closeCurrent lib c) (c :: held) spare := by
  unfold SocketStack.closeCurrent
  split
  · exact owned.use _
  · exact owned

theorem watch {want : Want} : ∀ {pool : List Claim} {st : SocketStack S},
    Owned old st held spare → Owned old (st.watch lib want pool) held spare
  | [], _, owned => owned
  | c :: pool, st, owned => by
    unfold SocketStack.watch
    split
    · next current =>
        have looked := owned.access (isCurrent_iff.1 current) id
        dsimp only
        split
        · exact looked
        · exact watch looked
    · exact owned

end Owned

end SocketStack

/-! ## What the calls keep -/

section Slots

variable {α β : Type} {l : List α} {i : Nat} {x : α}

/-- What the places of a table give, one of them first. -/
theorem flatMap_slot (f : α → List β) (slot : l[i]? = some x) :
    (l.flatMap f).Perm (f x ++ (l.eraseIdx i).flatMap f) := by
  obtain ⟨bound, rfl⟩ := List.getElem?_eq_some_iff.1 slot
  exact (List.getElem_cons_eraseIdx_perm bound).symm.flatMap_right f

/-- A place is set, and others are added. -/
theorem flatMap_set_append (f : α → List β) (bound : i < l.length) (x : α) (new : List α) :
    ((l.set i x ++ new).flatMap f).Perm (new.flatMap f ++ (f x ++ (l.eraseIdx i).flatMap f)) := by
  rw [List.flatMap_append]
  exact (((List.set_perm_cons_eraseIdx bound x).flatMap_right f).append_right _).trans
    List.perm_append_comm

end Slots

section Calls

open SocketStack

variable {S : Type} {lib : SocketLib S} {old st : SocketStack S} {held spare : List Claim}

/-- A listen succeeds on a fresh socket, but for port 0. -/
def SocketLib.Listens (lib : SocketLib S) : Prop :=
  ∀ ep : IpListenEndpoint, ep.port ≠ 0 → (lib.listen lib.tcp ep).isSome = true

namespace TcpSock

variable {s : TcpSock}

theorem finishBind_owned {nextPort : Nat} (owned : Owned old st (s.claim :: held) (s.backlog ++ spare)) :
    Owned old st ((s.finishBind nextPort).1.claim :: held)
      ((s.finishBind nextPort).1.backlog ++ spare) := by
  unfold finishBind
  split <;> exact owned

theorem startConnect_owned {hostAccess : Bool} {nextPort : Nat} {remote : SocketAddress}
    (owned : Owned old st (s.claim :: held) (s.backlog ++ spare)) :
    Owned old (s.startConnect lib st hostAccess nextPort remote).1
      ((s.startConnect lib st hostAccess nextPort remote).2.1.claim :: held)
      ((s.startConnect lib st hostAccess nextPort remote).2.1.backlog ++ spare) := by
  unfold startConnect
  split
  · split <;> exact owned
  · have used := owned.attempt fun sock => lib.connect sock remote (allocPort nextPort).1
    dsimp only
    split <;> exact used

theorem finishConnect_owned {failed connected : Bool} (owned : Owned old st (s.claim :: held) spare) :
    Owned old (s.finishConnect lib st failed connected).1 (s.claim :: held) spare := by
  unfold finishConnect
  split
  · exact owned
  · exact owned.use id

/-- The library refuses to let the primary socket listen. -/
def ListenRefused (lib : SocketLib S) (st : SocketStack S) (s : TcpSock) : Prop :=
  let eps := st.listenEndpoints s.family (s.localAddress.map Prod.fst) s.boundPort
  ((st.sock s.handle).bind fun sock => lib.listen sock (eps.headD ⟨none, 0⟩)) = none

/-- A listener keeps its claims where it has no backlog yet, or is refused. -/
theorem startListen_owned (owned : Owned old st (s.claim :: held) (s.backlog ++ spare))
    (once : s.backlog = [] ∨ ListenRefused lib st s) :
    Owned old (s.startListen lib st).1 ((s.startListen lib st).2.1.claim :: held)
      ((s.startListen lib st).2.1.backlog ++ spare) := by
  let eps := st.listenEndpoints s.family (s.localAddress.map Prod.fst) s.boundPort
  have tried := owned.attempt fun sock => lib.listen sock (eps.headD ⟨none, 0⟩)
  unfold startListen
  dsimp only
  split
  · next ok =>
      have empty := once.resolve_right fun refused => by
        rw [attempt, show Option.bind _ _ = none from refused] at ok
        cases ok
      rw [empty] at tried
      exact tried.arm lib
  · exact tried

/-- What `accept` does to the pool first: the primary slot stays the resource's. -/
theorem refused_owned (owned : Owned old st (s.claim :: held) (s.backlog ++ spare))
    (listens : ((st.sock s.handle).map lib.state).any TcpState.peered = true →
      ∀ ep, ep.port = s.boundPort → (lib.listen lib.tcp ep).isSome = true) :
    ∃ c backlog, (st.refuseAll lib TcpState.peered s.family s.boundPort s.pool).2 = c :: backlog ∧
      Owned old (st.refuseAll lib TcpState.peered s.family s.boundPort s.pool).1 (c :: held)
        (backlog ++ spare) := by
  have first : Owned old (st.refuse lib TcpState.peered s.family s.boundPort s.claim).1
      ((st.refuse lib TcpState.peered s.family s.boundPort s.claim).2 :: held) _ := owned.refuse_held listens
  exact ⟨_, _, rfl, first.refuseAll⟩

/-- A connection is taken out of slot `idx` and a fresh listener put there. -/
theorem restock_owned {c : Claim} {backlog : List Claim} {idx : Nat} {conn : Claim}
    (ep : IpListenEndpoint) (owned : Owned old st (c :: held) (backlog ++ spare)) (slot : (c :: backlog)[idx]? = some conn)
    (live : st.live conn.1 = some conn.2) :
    ∃ c' backlog', (c :: backlog).set idx ((st.access conn.2 conn.1 id).fresh lib ep).2.1 =
        c' :: backlog' ∧
      Owned old ((st.access conn.2 conn.1 id).fresh lib ep).1 (conn :: c' :: held) (backlog' ++ spare) := by
  cases idx with
  | zero =>
    cases slot
    refine ⟨_, backlog, rfl, ?_⟩
    exact ((owned.use id).fresh lib ep).congr (.swap ..) (.refl _)
  | succ k =>
    have taken := owned.takeSlot slot live
    refine ⟨c, _, rfl, ?_⟩
    exact ((taken.use id).fresh lib ep).fillSlot
      (Nat.lt_of_succ_lt_succ (List.getElem?_eq_some_iff.1 slot).1)

/-- `accept` gives the accepted socket to a resource of its own, where the pool can be
restocked, or has no connection to take. -/
theorem accept_owned (listens : lib.Listens)
    (owned : Owned old st (s.claim :: held) (s.backlog ++ spare))
    (restocked : s.boundPort ≠ 0 ∨ st.Quiet lib TcpState.peered s.pool) :
    (∀ conn, (s.accept lib st).2.2 = .ok conn → conn.backlog = [] ∧
      Owned old (s.accept lib st).1 (conn.claim :: (s.accept lib st).2.1.claim :: held)
        ((s.accept lib st).2.1.backlog ++ spare)) ∧
    (∀ e, (s.accept lib st).2.2 = .error e →
      Owned old (s.accept lib st).1 ((s.accept lib st).2.1.claim :: held)
        ((s.accept lib st).2.1.backlog ++ spare)) := by
  have onPort : s.boundPort ≠ 0 → ∀ ep : IpListenEndpoint, ep.port = s.boundPort →
      (lib.listen lib.tcp ep).isSome = true := fun port ep same => listens ep (same ▸ port)
  have current := isCurrent_iff.2 (owned.current s.claim (List.mem_cons_self ..))
  obtain ⟨c, backlog, pool, refused⟩ := refused_owned owned fun peer => by
    refine onPort (restocked.resolve_right fun quiet => ?_)
    exact absurd (peer.symm.trans (quiet s.claim (List.mem_cons_self ..) current)) nofun
  obtain ⟨live, spec⟩ := position_spec lib TcpState.peered
    (st.refuseAll lib TcpState.peered s.family s.boundPort s.pool).2
    (st.refuseAll lib TcpState.peered s.family s.boundPort s.pool).1
  unfold accept
  dsimp only
  split
  · refine ⟨nofun, fun e _ => ?_⟩
    rw [pool]
    exact Owned.position lib TcpState.peered (c :: backlog) refused
  · next idx found =>
      obtain ⟨conn, slot, current', peer⟩ := spec idx found
      have port := restocked.resolve_right fun quiet => by
        obtain ⟨same, live', sock'⟩ := refuseAll_quiet s.family s.boundPort quiet
        have still := (quiet.congr live' sock') conn (by
          rw [same] at slot
          exact List.mem_of_getElem? slot) current'
        rw [peer] at still
        cases still
      have here : ((st.refuseAll lib TcpState.peered s.family s.boundPort s.pool).2).getD idx
          s.claim = conn := by rw [List.getD_eq_getElem?_getD, slot]; rfl
      rw [here]
      rw [if_pos (fresh_ok lib _ (onPort port _ (relistenEp_port ..)))]
      generalize relistenEp lib _ _ _ _ = ep
      have still := (congrFun live conn.1).trans (isCurrent_iff.1 current')
      rw [pool] at slot still ⊢
      have positioned := Owned.position lib TcpState.peered (c :: backlog) refused
      obtain ⟨c', backlog', set, done⟩ := restock_owned ep positioned slot still
      refine ⟨fun conn' same => ?_, nofun⟩
      cases same
      refine ⟨rfl, ?_⟩
      rw [set]
      exact done

theorem drop_owned (owned : Owned old st (s.claim :: held) (s.backlog ++ spare)) :
    Owned old (s.drop lib st) held spare :=
  ((owned.closeCurrent lib).close .tcp).closePool

end TcpSock

namespace TcpSocket

variable {s : TcpSocket}

theorem claims_of_idle (idle : s.listening = false) : s.claims = [s.claim] := by
  have unpooled : s.pool.isSome = false := by
    cases some : s.pool.isSome with
    | false => rfl
    | true => exact absurd (idle.symm.trans (s.pooled some)) nofun
  rw [claims, unpooled]
  rfl

theorem bind_owned {nextPort : Nat} {addr : SocketAddress} (owned : Owned old st (s.claims ++ held) spare) :
    Owned old st ((s.bind nextPort addr).1.claims ++ held) spare := by
  unfold bind
  split
  · exact owned
  split <;> exact owned

theorem send_owned (owned : Owned old st (s.claims ++ held) spare) :
    Owned old st (s.send.1.claims ++ held) spare := by
  unfold send
  split <;> exact owned

theorem receive_owned (owned : Owned old st (s.claims ++ held) spare) :
    Owned old st (s.receive.1.claims ++ held) spare := by
  unfold receive
  split <;> exact owned

theorem connect_owned {hostAccess : Bool} {nextPort : Nat} {remote : SocketAddress}
    (owned : Owned old st (s.claims ++ held) spare) :
    Owned old (s.connect lib st hostAccess nextPort remote).1
      ((s.connect lib st hostAccess nextPort remote).2.1.claims ++ held) spare := by
  unfold connect
  split
  · exact owned
  split
  · exact owned
  · next busy =>
      split
      · exact owned
      split
      · split <;> exact owned
      · have idle : s.listening = false := by
          simp only [Bool.or_eq_true, not_or, Bool.not_eq_true] at busy
          exact busy.1.2
        dsimp only
        generalize (if (if s.bound then s.boundPort else 0) ≠ 0 then _ else _ : Nat × Nat) = port
        have used : Owned old (st.attempt s.gen s.handle fun sock => lib.connect sock remote port.1).1
            (s.claims ++ held) spare := by
          rw [claims_of_idle idle] at owned ⊢
          exact owned.attempt _
        split <;> exact used

theorem settle_owned {failed : Bool} (owned : Owned old st (s.claims ++ held) spare) :
    Owned old (s.settle lib st failed).1 ((s.settle lib st failed).2.1.claims ++ held) spare := by
  unfold settle
  split
  · split <;> exact owned
  · have looked : Owned old
        (if st.isCurrent s.handle s.gen then st.access s.gen s.handle id else st) (s.claims ++ held)
        spare := by
      split
      · next current => exact owned.access (c := s.claim) (isCurrent_iff.1 current) id
      · exact owned
    dsimp only
    split <;> exact looked

variable (lib) in
theorem listen_owned (nextPort newPool : Nat) (owned : Owned old st (s.claims ++ held) spare) :
    (∀ producer pool, (s.listen lib st nextPort newPool).2.2.2 = .ok (producer, pool) →
      Owned old (s.listen lib st nextPort newPool).1
        ((s.listen lib st nextPort newPool).2.1.claims ++ held) (pool ++ spare)) ∧
    (∀ e, (s.listen lib st nextPort newPool).2.2.2 = .error e →
      Owned old (s.listen lib st nextPort newPool).1
        ((s.listen lib st nextPort newPool).2.1.claims ++ held) spare) := by
  unfold listen
  split
  · exact ⟨nofun, fun _ _ => owned⟩
  · next busy =>
      have idle : s.listening = false := by
        simp only [Bool.or_eq_true, not_or, Bool.not_eq_true] at busy
        exact busy.1.1.1
      dsimp only
      generalize (if s.bound && s.boundPort ≠ 0 then _ else _ : Nat × Nat) = port
      generalize st.listenEndpoints s.family _ port.1 = eps
      have tried := owned
      rw [claims_of_idle idle] at tried
      replace tried := Owned.attempt tried fun sock => lib.listen sock (eps.headD ⟨none, 0⟩)
      split
      · refine ⟨fun producer pool same => ?_, nofun⟩
        cases same
        exact (tried.arm lib).spared
      · refine ⟨nofun, fun _ _ => ?_⟩
        rw [claims_of_idle idle]
        exact tried

theorem drop_owned {pools : List (List Claim)}
    (owned : Owned old st (s.claims ++ held) (spare ++ pools.flatten)) :
    Owned old (s.drop lib st pools) held (spare ++ pools.flatten) := by
  unfold drop
  split
  · next p pooled =>
      rw [claims, pooled] at owned
      cases slot : pools[p]? with
      | none =>
        rw [List.getD_eq_getElem?_getD, slot]
        exact owned
      | some pool =>
        have perm := ((flatMap_slot id slot).append_left spare).trans
          (List.perm_append_comm_assoc ..)
        rw [List.flatMap_id] at perm
        rw [List.getD_eq_getElem?_getD, slot]
        exact (Owned.closeShared (owned.congr (.refl _) perm)).congr (.refl _) perm.symm
  · next unpooled =>
      rw [claims, unpooled] at owned
      exact (Owned.closeCurrent lib owned).close .tcp

end TcpSocket

namespace AcceptProducer

variable {me : AcceptProducer}

variable (lib me) in
/-- The accepted socket leaves the pool, whether or not its slot can be restocked. -/
theorem pollProduce_owned {pool : List Claim} (owned : Owned old st held (pool ++ spare)) :
    Owned old (me.pollProduce lib pool st).1 ((me.pollProduce lib pool st).2.2.claims ++ held)
      ((me.pollProduce lib pool st).2.1 ++ spare) := by
  have refused : Owned old (st.refuseAll lib TcpState.left me.family me.port pool).1 held
      ((st.refuseAll lib TcpState.left me.family me.port pool).2 ++ spare) := owned.refuseAll
  have positioned := Owned.position lib TcpState.left
    (st.refuseAll lib TcpState.left me.family me.port pool).2 refused
  obtain ⟨live, spec⟩ := position_spec lib TcpState.left
    (st.refuseAll lib TcpState.left me.family me.port pool).2
    (st.refuseAll lib TcpState.left me.family me.port pool).1
  unfold pollProduce
  dsimp only
  split
  · exact owned
  split
  · exact positioned
  · next idx found =>
      obtain ⟨conn, slot, current, _⟩ := spec idx found
      have still := (congrFun live conn.1).trans (isCurrent_iff.1 current)
      have here : ((st.refuseAll lib TcpState.left me.family me.port pool).2).getD idx (0, 0) =
          conn := by rw [List.getD_eq_getElem?_getD, slot]; rfl
      rw [here]
      generalize relistenEp lib _ _ _ _ = ep
      have restocked := ((positioned.takeSlot slot still).use id).fresh lib ep
      split
      · exact restocked.fillSlot (List.getElem?_eq_some_iff.1 slot).1
      · exact restocked.close .tcp

end AcceptProducer

namespace UdpSock

variable {s : UdpSock}

theorem startBind_owned {addr : SocketAddress} (owned : Owned old st (s.claim :: held) spare) :
    Owned old st ((s.startBind addr).1.claim :: held) spare := by
  unfold startBind
  split <;> exact owned

theorem stream_owned {remote : Option SocketAddress} (owned : Owned old st (s.claim :: held) spare) :
    Owned old st ((s.stream remote).1.claim :: held) spare := by
  unfold stream
  split <;> exact owned

theorem disconnect_owned (owned : Owned old st (s.claim :: held) spare) :
    Owned old st (s.disconnect.1.claim :: held) spare := by
  unfold disconnect
  split <;> exact owned

theorem bindPort_owned {nextPort port : Nat} {family : IpFamily}
    (owned : Owned old st (s.claim :: held) spare) :
    Owned old (s.bindPort lib st nextPort family port).1
      ((s.bindPort lib st nextPort family port).2.1.claim :: held) spare := by
  unfold bindPort
  dsimp only
  generalize (if port = 0 then _ else _ : Nat × Nat) = chosen
  have used := owned.attempt fun sock => lib.bind sock chosen.1
  split <;> exact used

variable (lib) in
theorem ensureBound_owned (nextPort : Nat) (owned : Owned old st (s.claim :: held) spare) :
    Owned old (s.ensureBound lib st nextPort).1
      ((s.ensureBound lib st nextPort).2.1.claim :: held) spare := by
  unfold ensureBound
  split
  · exact owned
  · exact bindPort_owned owned

theorem finishBind_owned {nextPort : Nat} (owned : Owned old st (s.claim :: held) spare) :
    Owned old (s.finishBind lib st nextPort).1
      ((s.finishBind lib st nextPort).2.1.claim :: held) spare := by
  unfold finishBind
  split
  · exact owned
  · exact bindPort_owned owned

theorem bind_owned {nextPort : Nat} {addr : SocketAddress} (owned : Owned old st (s.claim :: held) spare) :
    Owned old (s.bind lib st nextPort addr).1
      ((s.bind lib st nextPort addr).2.1.claim :: held) spare := by
  unfold bind
  split
  · exact owned
  split
  · exact owned
  · exact bindPort_owned owned

theorem connect_owned {nextPort : Nat} {remote : SocketAddress}
    (owned : Owned old st (s.claim :: held) spare) :
    Owned old (s.connect lib st nextPort remote).1
      ((s.connect lib st nextPort remote).2.1.claim :: held) spare := by
  have bound := ensureBound_owned lib nextPort owned
  unfold connect
  split
  · exact owned
  split
  · exact owned
  split
  · next found =>
      rw [found] at bound
      exact bound
  · exact bound

theorem send_owned {hostAccess : Bool} {nextPort : Nat} {given : Option SocketAddress}
    (owned : Owned old st (s.claim :: held) spare) :
    Owned old (s.send lib st hostAccess nextPort given).1
      ((s.send lib st hostAccess nextPort given).2.1.claim :: held) spare := by
  have bound := ensureBound_owned lib nextPort owned
  unfold send
  split
  all_goals
    next found =>
      rw [found] at bound
      exact bound

end UdpSock

namespace NetNode

variable {w w' : NetNode S} {i : Nat}

/-- The sockets of the stack are owned by the resources and pools of the node. -/
def Good (old : SocketStack S) (w : NetNode S) : Prop := Owned old w.stack w.held w.spare

/-- A call that leaves no socket without an owner: a listener that has its pool is not
made to listen again, and `accept` on a socket bound to no port finds no connection. -/
def Careful (lib : SocketLib S) (w : NetNode S) : SocketCall S → Prop
  | .startListen i => ∀ s, w.resource i = some (.tcp s) →
      s.backlog = [] ∨ TcpSock.ListenRefused lib w.stack s
  | .accept i => ∀ s, w.resource i = some (.tcp s) →
      s.boundPort ≠ 0 ∨ w.stack.Quiet lib TcpState.peered s.pool
  | _ => True

/-- A resource's claims are changed by an operation that knows of no others. -/
theorem Good.change {r : Resource} (r' : Option Resource) (new : List (Option Resource))
    (good : Good old w) (found : w.resource i = some r) (table : w'.table = w.table.set i r' ++ new)
    (kept : ∀ {held spare}, Owned old w.stack (r.held ++ held) (r.spare ++ (spare ++ w.pools.flatten)) →
      Owned old w'.stack (heldIn new ++ (r'.elim [] Resource.held ++ held))
        (spareIn new ++ (r'.elim [] Resource.spare ++ (spare ++ w'.pools.flatten)))) :
    Good old w' := by
  have slot : w.table[i]? = some (some r) := Option.join_eq_some_iff.1 found
  have bound := (List.getElem?_eq_some_iff.1 slot).1
  have spares := (flatMap_slot (fun r => r.elim [] Resource.spare) slot).append_right w.pools.flatten
  rw [List.append_assoc] at spares
  have after := kept (Owned.congr good (flatMap_slot _ slot) spares)
  refine after.congr ?_ ?_
  · rw [NetNode.held, table]
    exact (flatMap_set_append _ bound r' new).symm
  · rw [NetNode.spare, table]
    have spares' := flatMap_set_append (fun r => r.elim [] Resource.spare) bound r' new
    have both := (spares'.append_right w'.pools.flatten).symm
    rw [List.append_assoc, List.append_assoc] at both
    exact both

/-- The claims of a resource are what an operation leaves of them. -/
theorem Good.update {r r' : Resource} (good : Good old w) (found : w.resource i = some r)
    (table : w'.table = w.table.set i (some r')) (pools : w'.pools = w.pools)
    (kept : ∀ {held spare}, Owned old w.stack (r.held ++ held) (r.spare ++ spare) →
      Owned old w'.stack (r'.held ++ held) (r'.spare ++ spare)) : Good old w' := by
  refine good.change (some r') [] found (by rw [table, List.append_nil]) fun owned => ?_
  rw [pools]
  exact kept owned

/-- A dropped resource leaves no claims. -/
theorem Good.remove {r : Resource} (good : Good old w) (found : w.resource i = some r)
    (table : w'.table = w.table.set i none) (pools : w'.pools = w.pools)
    (kept : ∀ {held spare}, Owned old w.stack (r.held ++ held) (r.spare ++ (spare ++ w.pools.flatten)) →
      Owned old w'.stack held (spare ++ w.pools.flatten)) : Good old w' := by
  refine good.change none [] found (by rw [table, List.append_nil]) fun owned => ?_
  rw [pools]
  exact kept owned

/-- An operation on a resource's own socket leaves the claims as they are. -/
theorem Good.use {r : Resource} (good : Good old w) (found : w.resource i = some r)
    (table : w'.table = w.table) (pools : w'.pools = w.pools)
    (kept : ∀ {held spare}, Owned old w.stack (r.held ++ held) spare →
      Owned old w'.stack (r.held ++ held) spare) : Good old w' := by
  have slot : w.table[i]? = some (some r) := Option.join_eq_some_iff.1 found
  have same := flatMap_slot (fun r => r.elim [] Resource.held) slot
  unfold Good
  rw [NetNode.held, NetNode.spare, table, pools]
  exact (kept (Owned.congr good same (.refl _))).congr same.symm (.refl _)

theorem Good.create (good : Good old w) (sock : S) {resource : Claim → Resource}
    (held : ∀ c, (resource c).held = [c]) (spare : ∀ c, (resource c).spare = []) :
    Good old (w.create sock resource) := by
  have added := Owned.addTracked good sock
  have heldNew : (w.create sock resource).held = w.held ++
      [((w.stack.add sock).2, ((w.stack.add sock).1.track (w.stack.add sock).2).2)] := by
    change (w.table ++ [some _]).flatMap _ = _
    rw [List.flatMap_append]
    exact congrArg (w.held ++ ·) ((List.append_nil _).trans (held _))
  have spareNew : (w.create sock resource).spare = w.spare := by
    change (w.table ++ [some _]).flatMap _ ++ _ = _
    rw [List.flatMap_append]
    refine congrArg (· ++ w.pools.flatten) ?_
    exact (congrArg (w.table.flatMap _ ++ ·) ((List.append_nil _).trans (spare _))).trans
      (List.append_nil _)
  unfold Good
  rw [heldNew, spareNew]
  exact added.congr (List.perm_append_singleton _ _).symm (.refl _)

section On

variable {f : TcpSock → NetNode S} {f3 : TcpSocket → NetNode S} {u : UdpSock → NetNode S}

theorem Good.onTcp (good : Good old w) (kept : ∀ s, w.resource i = some (.tcp s) → Good old (f s)) :
    Good old (w.onTcp i f) := by
  unfold NetNode.onTcp
  split
  · next s found => exact kept s found
  · exact good

theorem Good.onTcp3 (good : Good old w)
    (kept : ∀ s, w.resource i = some (.tcp3 s) → Good old (f3 s)) : Good old (w.onTcp3 i f3) := by
  unfold NetNode.onTcp3
  split
  · next s found => exact kept s found
  · exact good

theorem Good.onUdp (good : Good old w) (kept : ∀ s, w.resource i = some (.udp s) → Good old (u s)) :
    Good old (w.onUdp i u) := by
  unfold NetNode.onUdp
  split
  · next s found => exact kept s found
  · exact good

theorem Good.onUdp3 (good : Good old w)
    (kept : ∀ s, w.resource i = some (.udp3 s) → Good old (u s)) : Good old (w.onUdp3 i u) := by
  unfold NetNode.onUdp3
  split
  · next s found => exact kept s found
  · exact good

end On

/-- A shared pool gives a socket to a new resource, or keeps them all. -/
theorem Good.produce (good : Good old w) (producer : AcceptProducer)
    (table : w'.table =
      w.table ++ (producer.pollProduce lib (w.pools.getD producer.pool []) w.stack).2.2.added)
    (pools : w'.pools = w.pools.set producer.pool
      (producer.pollProduce lib (w.pools.getD producer.pool []) w.stack).2.1)
    (stack : w'.stack = (producer.pollProduce lib (w.pools.getD producer.pool []) w.stack).1) :
    Good old w' := by
  have added : ∀ produced : Produced, heldIn produced.added = produced.claims ∧
      spareIn produced.added = [] := by
    intro produced
    cases produced with
    | accepted s => exact ⟨List.append_nil _, rfl⟩
    | dropped => exact ⟨rfl, rfl⟩
    | pending => exact ⟨rfl, rfl⟩
  unfold Good
  rw [NetNode.held, NetNode.spare, table, pools, stack, heldIn, spareIn, List.flatMap_append,
    List.flatMap_append]
  cases slot : w.pools[producer.pool]? with
  | none =>
    -- No such pool: nothing is current in it.
    rw [List.getD_eq_getElem?_getD, slot, List.set_eq_of_length_le (List.getElem?_eq_none_iff.1 slot)]
    refine Owned.congr good (.of_eq (List.append_nil _).symm) ?_
    exact .of_eq (congrArg (· ++ w.pools.flatten) (List.append_nil _).symm)
  | some pool =>
    have bound := (List.getElem?_eq_some_iff.1 slot).1
    have first : w.spare.Perm (pool ++ (spareIn w.table ++ (w.pools.eraseIdx producer.pool).flatten)) := by
      have front := flatMap_slot id slot
      simp only [List.flatMap_id, id] at front
      exact (front.append_left (spareIn w.table)).trans (List.perm_append_comm_assoc ..)
    have produced := AcceptProducer.pollProduce_owned lib producer (Owned.congr good (.refl _) first)
    rw [List.getD_eq_getElem?_getD, slot, Option.getD_some]
    generalize producer.pollProduce lib pool w.stack = out at produced ⊢
    refine produced.congr ?_ ?_
    · rw [← (added out.2.2).1]
      exact List.perm_append_comm
    · have last := flatMap_set_append id bound out.2.1 []
      simp only [List.flatMap_id, id, List.append_nil, List.flatMap_nil, List.nil_append] at last
      have none := (added out.2.2).2
      rw [spareIn] at none
      rw [none, List.append_nil]
      exact (List.perm_append_comm_assoc ..).trans (last.symm.append_left _)

/-- Every careful call but a reap keeps the sockets owned. -/
theorem Good.step (listens : lib.Listens) (good : Good old w) {call : SocketCall S}
    (careful : Careful lib w call) (acts : call ≠ .reap) : Good old (w.step lib call) := by
  cases call with
  | createTcp family => exact good.create lib.tcp (fun _ => rfl) fun _ => rfl
  | createUdp family => exact good.create lib.udp (fun _ => rfl) fun _ => rfl
  | createTcp3 family => exact good.create lib.tcp (fun _ => rfl) fun _ => rfl
  | createUdp3 family => exact good.create lib.udp (fun _ => rfl) fun _ => rfl
  | startBind i addr => exact good.onTcp fun s found => good.update found rfl rfl fun owned => owned
  | finishBind i => exact good.onTcp fun s found => good.update found rfl rfl TcpSock.finishBind_owned
  | startConnect i remote =>
    exact good.onTcp fun s found => good.update found rfl rfl TcpSock.startConnect_owned
  | finishConnect i failed connected =>
    exact good.onTcp fun s found => good.use found rfl rfl TcpSock.finishConnect_owned
  | startListen i =>
    exact good.onTcp fun s found => good.update found rfl rfl fun owned =>
      TcpSock.startListen_owned owned (careful s found)
  | accept i =>
    refine good.onTcp fun s found => ?_
    have accepted : ∀ {held spare}, Owned old w.stack (s.claim :: held) (s.backlog ++ spare) → _ :=
      fun owned => TcpSock.accept_owned listens owned (careful s found)
    split
    · next stack s' conn answer =>
        refine good.change (some (.tcp s')) [some (.tcp conn)] found rfl fun owned => ?_
        obtain ⟨alone, kept⟩ := (accepted owned).1 conn (by rw [answer])
        rw [answer] at kept
        have pools : spareIn [some (.tcp conn)] = [] := by
          rw [spareIn, List.flatMap_singleton]
          exact alone
        rw [pools]
        exact kept
    · next stack s' e answer =>
        refine good.update found rfl rfl fun owned => ?_
        have kept := (accepted owned).2 e (by rw [answer])
        rw [answer] at kept
        exact kept
  | subscribe i => exact good.onTcp fun s found => good
  | shutdown i =>
    exact good.onTcp fun s found => good.use found rfl rfl fun owned => Owned.use owned lib.close
  | drop i =>
    exact good.onTcp fun s found => good.remove found rfl rfl TcpSock.drop_owned
  | startBindUdp i addr =>
    exact good.onUdp fun s found => good.update found rfl rfl UdpSock.startBind_owned
  | finishBindUdp i => exact good.onUdp fun s found => good.update found rfl rfl UdpSock.finishBind_owned
  | stream i remote => exact good.onUdp fun s found => good.update found rfl rfl UdpSock.stream_owned
  | subscribeUdp i => exact good.onUdp fun s found => good
  | dropUdp i => exact good.onUdp fun s found => good.remove found rfl rfl fun owned => owned.close .udp
  | bind3 i addr =>
    exact good.onTcp3 fun s found => good.update found rfl rfl TcpSocket.bind_owned
  | connect3 i remote =>
    exact good.onTcp3 fun s found => good.update found rfl rfl TcpSocket.connect_owned
  | settle3 i failed =>
    refine good.onTcp3 fun s found => ?_
    split
    · exact good.update found rfl rfl TcpSocket.settle_owned
    · exact good
  | listen3 i =>
    refine good.onTcp3 fun s found => ?_
    split
    · next stack s' nextPort producer pool answer =>
        refine good.change (some (.tcp3 s')) [] found (by simp [NetNode.put])
          fun {held spare} owned => ?_
        have kept := (TcpSocket.listen_owned lib w.nextPort w.pools.length owned).1 producer pool (by rw [answer])
        rw [answer] at kept
        refine kept.congr (.refl _) ?_
        change (pool ++ (spare ++ w.pools.flatten)).Perm (spare ++ (w.pools ++ [pool]).flatten)
        rw [List.flatten_append, List.flatten_singleton, ← List.append_assoc spare]
        exact List.perm_append_comm
    · next stack s' nextPort e answer =>
        refine good.update found rfl rfl fun owned => ?_
        have kept := (TcpSocket.listen_owned lib w.nextPort w.pools.length owned).2 e (by rw [answer])
        rw [answer] at kept
        exact kept
  | send3 i => exact good.onTcp3 fun s found => good.update found rfl rfl TcpSocket.send_owned
  | receive3 i => exact good.onTcp3 fun s found => good.update found rfl rfl TcpSocket.receive_owned
  | drop3 i => exact good.onTcp3 fun s found => good.remove found rfl rfl TcpSocket.drop_owned
  | produce p =>
    dsimp only [NetNode.step]
    split
    · exact good
    · next producer _ => exact good.produce producer rfl rfl rfl
  | bindUdp3 i addr => exact good.onUdp3 fun s found => good.update found rfl rfl UdpSock.bind_owned
  | connectUdp3 i remote =>
    exact good.onUdp3 fun s found => good.update found rfl rfl UdpSock.connect_owned
  | disconnectUdp3 i =>
    exact good.onUdp3 fun s found => good.update found rfl rfl UdpSock.disconnect_owned
  | sendUdp3 i given => exact good.onUdp3 fun s found => good.update found rfl rfl UdpSock.send_owned
  | receiveUdp3 i => exact good.onUdp3 fun s found => good
  | dropUdp3 i =>
    exact good.onUdp3 fun s found => good.remove found rfl rfl fun owned => owned.close .udp
  | io k f =>
    dsimp only [NetNode.step]
    split
    · next c _ =>
        split
        · next current => exact Owned.access good (isCurrent_iff.1 current) f
        · exact good
    · exact good
  | await k want =>
    dsimp only [NetNode.step]
    split
    · exact Owned.watch good
    · exact good
  | ready k =>
    dsimp only [NetNode.step]
    split
    · exact Owned.watch good
    · exact good
  | grant hostAccess => exact good
  | poll f => exact Owned.poll good f
  | reap => exact absurd rfl acts

/-- **One owner a socket.**  Live and closing handles are slots of the set, and apart; a
live one has one claim among those of the resources and pool slots, and what a resource
claims for itself is live; no socket is removed twice, nor is one that waits to be; and
every access found the socket its caller meant. -/
structure OneOwner (w : NetNode S) : Prop where
  apart : ∀ c ∈ w.stack.closing, w.stack.live c.handle = none
  liveSlot : ∀ h g, w.stack.live h = some g → w.stack.gens h = some g
  closingSlot : ∀ c ∈ w.stack.closing, w.stack.gens c.handle = some c.gen
  owner : ∀ h g, w.stack.live h = some g → (w.held ++ w.spare).count (h, g) = 1
  held : ∀ c ∈ w.held, w.stack.live c.1 = some c.2
  closingOnce : (w.stack.closing.map Closing.handle).Nodup
  reapedOnce : w.stack.reaped.Nodup
  waiting : ∀ c ∈ w.stack.closing, c.gen ∉ w.stack.reaped
  meant : ∀ t ∈ w.stack.touched, t.found = some t.holder

theorem Good.oneOwner (good : Good old w) : w.OneOwner where
  apart c member := (good.sound.closing c member).2
  liveSlot := good.sound.live
  closingSlot c member := (good.sound.closing c member).1
  owner h g live := List.count_eq_one_of_mem (List.Nodup.of_map _ good.distinct) (good.owned h g live)
  held := good.current
  closingOnce := good.sound.once
  reapedOnce := good.sound.reapedOnce
  waiting c member gone := (good.sound.reapedGone _ gone).2 _ (good.sound.closing c member).1
  meant := good.sound.touched

/-- A node with no sockets yet. -/
def boot (ip : Ipv4) (ip6 : Ipv6) : NetNode S := { stack := { ip, ip6 } }

theorem good_boot (ip : Ipv4) (ip6 : Ipv6) :
    Good (boot ip ip6 : NetNode S).stack (boot ip ip6 : NetNode S) :=
  ⟨.start ip ip6, nofun, List.nodup_nil, nofun, nofun, fun _ _ draining => draining⟩

/-- The step lemma over all calls: what a reap leaves is the start of what comes after. -/
theorem Good.turn (listens : lib.Listens) (good : Good w.stack w) {call : SocketCall S}
    (careful : Careful lib w call) : Good (w.step lib call).stack (w.step lib call) := by
  by_cases acts : call = .reap
  · subst acts
    exact Owned.reapClosing lib good
  · exact Owned.rebase (good.step listens careful acts)

/-- What is closed is nearer to its removal by every reap of a run. -/
theorem Good.draining (listens : lib.Listens) {g n : Nat} :
    ∀ {calls : List (SocketCall S)} {w : NetNode S}, Good w.stack w →
      Along (NetNode.step lib) (Careful lib) w calls →
      w.stack.Draining g (n + calls.countP SocketCall.reaps) →
      (calls.foldl (NetNode.step lib) w).stack.Draining g n
  | [], _, _, _, draining => draining
  | call :: calls, w, good, careful, draining => by
    change (calls.foldl (NetNode.step lib) (NetNode.step lib w call)).stack.Draining g n
    refine Good.draining listens (good.turn listens careful.1) careful.2 ?_
    by_cases acts : call = .reap
    · subst acts
      rw [List.countP_cons_of_pos rfl, ← Nat.add_assoc] at draining
      exact draining.reapClosing lib good.sound
    · rw [List.countP_cons_of_neg fun reaps => acts (SocketCall.reaps_iff.1 reaps)] at draining
      exact (good.step listens careful.1 acts).drains _ _ draining

/-- The run theorem: careful calls keep one owner a socket, and what is closed is removed
within `closeTicks` reaps. -/
theorem run_owned (listens : lib.Listens) (ip : Ipv4) (ip6 : Ipv6) {calls : List (SocketCall S)}
    (careful : Along (step lib) (Careful lib) (boot ip ip6) calls) :
    (∀ done, done <+: calls → (done.foldl (step lib) (boot ip ip6)).OneOwner) ∧
    ∀ before after, calls = before ++ after → closeTicks ≤ after.countP SocketCall.reaps →
      ∀ c ∈ (before.foldl (step lib) (boot ip ip6)).stack.closing,
        c.gen ∈ (calls.foldl (step lib) (boot ip ip6)).stack.reaped := by
  have reached : ∀ done, done <+: calls →
      Good (done.foldl (step lib) (boot ip ip6)).stack (done.foldl (step lib) (boot ip ip6)) := by
    rintro done ⟨rest, rfl⟩
    exact careful.append.1.keeps (Q := fun w => Good w.stack w)
      (fun _ _ met good => good.turn listens met) (good_boot ip ip6)
  refine ⟨fun done before => (reached done before).oneOwner, fun before after split enough c member => ?_⟩
  subst split
  have here := reached before ⟨after, rfl⟩
  have draining := here.sound.draining_of_closing member
  have bounded : (before.foldl (step lib) (boot ip ip6)).stack.Draining c.gen
      (0 + after.countP SocketCall.reaps) :=
    draining.imp_right fun ⟨c', m, same, few⟩ => ⟨c', m, same, by omega⟩
  have done := Good.draining listens here careful.append.2 bounded
  rw [← List.foldl_append] at done
  exact (reached _ (List.prefix_refl _)).sound.reaped_of_draining done

end NetNode

end Calls

/-! ## Poles -/

namespace NetNode

section Poles

/-- A TCP socket as the calls below see it. -/
structure PlainSock where
  state : TcpState := .closed
  listening : Option IpListenEndpoint := none
  remote : Option SocketAddress := none
  deriving DecidableEq, Repr

/-- It listens on a port when it is closed, or listens there already, and connects when
it is closed. -/
def plainLib : SocketLib PlainSock where
  tcp := {}
  udp := {}
  state := PlainSock.state
  listen s ep :=
    if ep.port = 0 then none
    else if s.state = .closed then some { s with state := .listen, listening := some ep }
    else if s.state = .listen ∧ s.listening = some ep then some s
    else none
  connect s remote _ :=
    if s.state = .closed then some { s with state := .synSent, remote := some remote } else none
  bind s _ := some s
  close s := { s with state := .closed }
  abort s := { s with state := .closed }
  localEndpoint _ := none
  remoteEndpoint := PlainSock.remote
  sendQueue _ := 0
  canRecv _ := false
  mayRecv s := s.state = .established
  canSend s := s.state = .established
  maySend s := s.state = .established

theorem plainLib_listens : plainLib.Listens := by
  intro ep port
  change (if ep.port = 0 then _ else _ : Option PlainSock).isSome = true
  rw [if_neg port]
  rfl

/-- The handshakes of the stack complete. -/
def handshake : SocketCall PlainSock :=
  .poll fun _ s => if s.state = .synSent ∨ s.state = .listen then { s with state := .established } else s

def node : Ipv4 := { o0 := 10, o1 := 0, o2 := 0, o3 := 5 }

/-- A server: bind, listen, accept a connection, shut it down and drop it, and the
listener after it. -/
def server : List (SocketCall PlainSock) :=
  [.createTcp .v4, .startBind 0 (.ipv4 node, 80), .finishBind 0, .startListen 0, handshake, .accept 0,
    .shutdown 1, .drop 1, .drop 0, .reap]

/-- A check that is enough for a call to be careful. -/
def checkCareful (w : NetNode PlainSock) : SocketCall PlainSock → Bool
  | .startListen i => (w.resource i).all fun
      | .tcp s => s.backlog = []
      | _ => true
  | .accept i => (w.resource i).all fun
      | .tcp s => s.boundPort ≠ 0
      | _ => true
  | _ => true

theorem careful_of_check (w : NetNode PlainSock) (call : SocketCall PlainSock)
    (passed : checkCareful w call = true) : Careful plainLib w call := by
  cases call
  case startListen i =>
    intro s found
    rw [checkCareful, found] at passed
    exact .inl (of_decide_eq_true passed)
  case accept i =>
    intro s found
    rw [checkCareful, found] at passed
    exact .inl (of_decide_eq_true passed)
  all_goals trivial

theorem server_owned : plainLib.Listens ∧ ∀ done, done <+: server →
    (done.foldl (step plainLib) (boot node (ula node))).OneOwner :=
  ⟨plainLib_listens, (run_owned plainLib_listens node (ula node)
    (along_of_check careful_of_check (by decide +kernel))).1⟩

/-- A v4 socket connects to a v6 peer and then accepts; its own socket is aborted, and
when the slot has a UDP socket the first resource is dropped. -/
def straying : List (SocketCall PlainSock) :=
  [.createTcp .v4, .startConnect 0 (.ipv6 (ula node), 80), handshake, .accept 0, .reap, .createUdp .v4,
    .drop 0]

theorem recycled_slot_closed : plainLib.Listens ∧
    ¬(straying.foldl (step plainLib) (boot node (ula node))).OneOwner := by
  refine ⟨plainLib_listens, fun one => ?_⟩
  have closed : ({ holder := 0, found := some 2 } : Touch) ∈
      (straying.foldl (step plainLib) (boot node (ula node))).stack.touched := by decide
  exact absurd (one.meant _ closed) (by decide)

end Poles

end NetNode

end Wk.Fabric
