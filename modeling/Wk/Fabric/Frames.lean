/-
# Wk.Fabric.Frames -- what the socket calls are made of

Every call on the sockets of a node is made of the same few operations of its stack.  What
holds of each of them, and of one after another, holds of the calls: they are gone through
here once, for any such relation.

* `Frames`: the relation holds of each operation that opens no socket.
* `SocketStack.Dated`: claims that were given out; the pools hold no others.
* `NetNode.frame_step`: a call is related if the opening it attempts is.
-/
import Wk.Fabric.Owners

namespace Wk.Fabric

set_option autoImplicit false

section Stack

variable {S : Type} {lib : SocketLib S}

/-- A relation of a stack to what operations leave of it, that holds of every one that does not
open a socket: that does not tell it to listen, to connect or to bind. -/
structure Frames (lib : SocketLib S) (R : SocketStack S → SocketStack S → Prop) : Prop where
  refl (st : SocketStack S) : R st st
  trans {st st' st'' : SocketStack S} (first : R st st') (second : R st' st'') : R st st''
  look (st : SocketStack S) (gen h : Nat) : R st (st.access gen h id)
  close (st : SocketStack S) (gen h : Nat) : R st (st.access gen h lib.close)
  abort (st : SocketStack S) (gen h : Nat) : R st (st.access gen h lib.abort)
  beginClose (st : SocketStack S) (gen h : Nat) (kind : SockKind) : R st (st.beginClose gen h kind)
  remove (st : SocketStack S) (gen h : Nat) : R st (st.remove gen h)
  listed (st : SocketStack S) (closing : List Closing) : R st { st with closing }

namespace Frames

variable {R : SocketStack S → SocketStack S → Prop} (frame : Frames lib R)

include frame

/-! ## The operations on a pool -/

theorem reapAll : ∀ (cs : List Closing) (st : SocketStack S), R st (st.reapAll lib cs).1
  | [], st => frame.refl st
  | c :: cs, st => by
    refine frame.trans ?_ (reapAll cs (st.reapOne lib c).1)
    simp only [SocketStack.reapOne]
    split
    · exact frame.trans (frame.look st c.gen c.handle) (frame.remove ..)
    · exact frame.look st c.gen c.handle

theorem reapClosing (st : SocketStack S) : R st (st.reapClosing lib) :=
  frame.trans (frame.reapAll st.closing st) (frame.listed ..)

theorem watch {want : Want} : ∀ {pool : List Claim} {st : SocketStack S}, R st (st.watch lib want pool)
  | [], st => frame.refl st
  | c :: pool, st => by
    simp only [SocketStack.watch]
    split
    · split
      · exact frame.look st c.2 c.1
      · exact frame.trans (frame.look st c.2 c.1) watch
    · exact frame.refl st

theorem position {peered : TcpState → Bool} : ∀ {pool : List Claim} {st : SocketStack S},
    R st (st.position lib peered pool).1
  | [], st => frame.refl st
  | c :: pool, st => by
    simp only [SocketStack.position]
    split
    · split
      · exact frame.look st c.2 c.1
      · exact frame.trans (frame.look st c.2 c.1) position
    · exact position

theorem closeCurrent (st : SocketStack S) (c : Claim) : R st (st.closeCurrent lib c) := by
  simp only [SocketStack.closeCurrent]
  split
  · exact frame.close st c.2 c.1
  · exact frame.refl st

theorem closePool {f : Option (S → S)} (quiet : ∀ g ∈ f, g = lib.close) : ∀ {pool : List Claim} {st : SocketStack S},
    R st (st.closePool f pool)
  | [], st => frame.refl st
  | c :: pool, st => by
    simp only [SocketStack.closePool]
    refine frame.trans ?_ (closePool quiet)
    split
    · refine frame.trans ?_ (frame.beginClose _ c.2 c.1 .tcp)
      cases f with
      | none => exact frame.refl st
      | some g =>
        obtain rfl := quiet g rfl
        exact frame.close st c.2 c.1
    · exact frame.refl st

theorem arm {eps : List IpListenEndpoint} (armed : ∀ i st, R st (st.fresh lib (eps.getD i ⟨none, 0⟩)).1) :
    ∀ (is : List Nat) (st : SocketStack S), R st (st.arm lib eps is).1
  | [], st => frame.refl st
  | i :: is, st => by
    have took := armed (i % eps.length) st
    simp only [SocketStack.arm]
    split
    · exact frame.trans took (arm armed is _)
    · exact frame.trans (frame.trans took (frame.beginClose ..)) (arm armed is _)

section Relisten

variable {n : Nat} (armed : ∀ ep : IpListenEndpoint, ep.port = n → ∀ st, R st (st.fresh lib ep).1)

include armed

theorem refuse (peered : TcpState → Bool) (family : IpFamily) (c : Claim) (st : SocketStack S) :
    R st (st.refuse lib peered family n c).1 := by
  simp only [SocketStack.refuse]
  split
  · exact frame.refl st
  · split
    · exact frame.look st c.2 c.1
    · have closed : R st (((st.access c.2 c.1 id).access c.2 c.1 lib.abort).beginClose c.2 c.1 .tcp) :=
        frame.trans (frame.trans (frame.look st c.2 c.1) (frame.abort ..)) (frame.beginClose ..)
      have opened := frame.trans closed (armed _ (SocketStack.relistenEp_port lib (st.access c.2 c.1 id) (st.sock c.1) family n) _)
      split
      · exact opened
      · exact frame.trans opened (frame.beginClose ..)

theorem refuseAll (peered : TcpState → Bool) (family : IpFamily) : ∀ (pool : List Claim) (st : SocketStack S),
    R st (st.refuseAll lib peered family n pool).1
  | [], st => frame.refl st
  | c :: pool, st => frame.trans (frame.refuse armed peered family c st) (refuseAll peered family pool _)

end Relisten

/-! ## The calls on one socket -/

theorem finishConnect (s : TcpSock) (st : SocketStack S) (failed connected : Bool) :
    R st (s.finishConnect lib st failed connected).1 := by
  simp only [TcpSock.finishConnect]
  split
  · exact frame.refl st
  · exact frame.look st s.gen s.handle

theorem accept (s : TcpSock) (armed : ∀ ep : IpListenEndpoint, ep.port = s.boundPort → ∀ st, R st (st.fresh lib ep).1)
    (st : SocketStack S) : R st (s.accept lib st).1 := by
  have refused := frame.refuseAll armed TcpState.peered s.family s.pool st
  simp only [TcpSock.accept]
  generalize st.refuseAll lib TcpState.peered s.family s.boundPort s.pool = r at refused ⊢
  obtain ⟨st₁, pool⟩ := r
  have found : R st₁ (st₁.position lib TcpState.peered pool).1 := frame.position
  dsimp only at refused ⊢
  generalize st₁.position lib TcpState.peered pool = r at found ⊢
  obtain ⟨st₂, idx⟩ := r
  cases idx with
  | none => exact frame.trans refused found
  | some idx =>
    dsimp only at found ⊢
    generalize pool.getD idx s.claim = conn
    have again := SocketStack.relistenEp_port lib (st₂.access conn.2 conn.1 id) (st₂.sock conn.1) s.family s.boundPort
    have all := frame.trans (frame.trans (frame.trans refused found) (frame.look _ conn.2 conn.1)) (armed _ again _)
    split
    · exact all
    · exact all

theorem drop (s : TcpSock) (st : SocketStack S) : R st (s.drop lib st) :=
  frame.trans (frame.trans (frame.closeCurrent st s.claim) (frame.beginClose ..)) (frame.closePool fun g member => by cases member)

theorem settle (s : TcpSocket) (st : SocketStack S) (failed : Bool) : R st (s.settle lib st failed).1 := by
  simp only [TcpSocket.settle]
  split
  · split
    · exact frame.refl st
    · exact frame.refl st
  · by_cases current : st.isCurrent s.handle s.gen = true
    · simp only [if_pos current]
      split
      · exact frame.look st s.gen s.handle
      · exact frame.look st s.gen s.handle
    · simp only [if_neg current]
      split
      · exact frame.refl st
      · exact frame.refl st

theorem drop3 (s : TcpSocket) (st : SocketStack S) (pools : List (List Claim)) : R st (s.drop lib st pools) := by
  simp only [TcpSocket.drop]
  split
  · exact frame.closePool fun g same => (Option.some.inj same).symm
  · exact frame.trans (frame.closeCurrent st s.claim) (frame.beginClose ..)

theorem pollProduce (me : AcceptProducer) (pool : List Claim) (st : SocketStack S)
    (armed : (pool.any fun c => st.isCurrent c.1 c.2) = true →
      ∀ ep : IpListenEndpoint, ep.port = me.port → ∀ st, R st (st.fresh lib ep).1) :
    R st (me.pollProduce lib pool st).1 := by
  simp only [AcceptProducer.pollProduce]
  split
  · exact frame.refl st
  · next serves =>
      have armed := armed (by simpa [List.not_any_eq_all_not] using serves)
      have refused := frame.refuseAll armed TcpState.left me.family pool st
      generalize st.refuseAll lib TcpState.left me.family me.port pool = r at refused ⊢
      obtain ⟨st₁, pool⟩ := r
      have found : R st₁ (st₁.position lib TcpState.left pool).1 := frame.position
      dsimp only at refused ⊢
      generalize st₁.position lib TcpState.left pool = r at found ⊢
      obtain ⟨st₂, idx⟩ := r
      cases idx with
      | none => exact frame.trans refused found
      | some idx =>
        dsimp only at found ⊢
        generalize pool.getD idx (0, 0) = conn
        have again := SocketStack.relistenEp_port lib (st₂.access conn.2 conn.1 id) (st₂.sock conn.1) me.family me.port
        have all := frame.trans (frame.trans (frame.trans refused found) (frame.look _ conn.2 conn.1)) (armed _ again _)
        split
        · exact all
        · exact frame.trans all (frame.beginClose ..)

end Frames

/-! ## Claims that were given out -/

/-- The claims of a pool were given out. -/
def SocketStack.Dated (st : SocketStack S) (pool : List Claim) : Prop := ∀ c ∈ pool, c.2 < st.nextGen

namespace SocketStack

variable {st st' : SocketStack S} {pool : List Claim}

theorem Dated.later (dated : st.Dated pool) (later : st.nextGen ≤ st'.nextGen) : st'.Dated pool :=
  fun c member => Nat.lt_of_lt_of_le (dated c member) later

theorem nextGen_beginClose (st : SocketStack S) (gen h : Nat) (kind : SockKind) :
    (st.beginClose gen h kind).nextGen = st.nextGen := by
  simp only [SocketStack.beginClose]
  split <;> rfl

variable (lib) in
theorem later_frames : Frames lib fun st st' => st.nextGen ≤ st'.nextGen where
  refl _ := le_rfl
  trans := le_trans
  look _ _ _ := le_rfl
  close _ _ _ := le_rfl
  abort _ _ _ := le_rfl
  beginClose st gen h kind := (nextGen_beginClose st gen h kind).ge
  remove _ _ _ := le_rfl
  listed _ _ := le_rfl

variable (lib) in
theorem fresh_later (ep : IpListenEndpoint) (st : SocketStack S) : st.nextGen ≤ (st.fresh lib ep).1.nextGen :=
  Nat.le_succ _

variable (lib) in
/-- A fresh claim is given out with its socket. -/
theorem fresh_dated (ep : IpListenEndpoint) (st : SocketStack S) :
    (st.fresh lib ep).2.1.2 < (st.fresh lib ep).1.nextGen :=
  Nat.lt_succ_self _

variable (lib) in
theorem arm_dated (eps : List IpListenEndpoint) : ∀ (is : List Nat) (st : SocketStack S),
    (st.arm lib eps is).1.Dated (st.arm lib eps is).2
  | [], _ => nofun
  | i :: is, st => by
    have armed : ∀ (is : List Nat) (st : SocketStack S), st.nextGen ≤ (st.arm lib eps is).1.nextGen :=
      (later_frames lib).arm fun _ st => fresh_later lib _ st
    simp only [arm]
    split
    · intro c member
      rcases List.mem_cons.1 member with rfl | member
      · exact Nat.lt_of_lt_of_le (fresh_dated lib _ st) (armed is _)
      · exact arm_dated eps is _ c member
    · exact arm_dated eps is _

variable {peered : TcpState → Bool} {family : IpFamily} {n : Nat}

theorem refuse_dated {c : Claim} (dated : c.2 < st.nextGen) :
    (st.refuse lib peered family n c).2.2 < (st.refuse lib peered family n c).1.nextGen := by
  have later := (later_frames lib).refuse (n := n) (fun _ _ st => fresh_later lib _ st) peered family c st
  simp only [refuse] at later ⊢
  split
  · exact dated
  · split
    · exact dated
    · split
      · exact fresh_dated lib _ _
      · next current foreign failed =>
          simp only [if_neg current, if_neg foreign, if_neg failed] at later
          exact Nat.lt_of_lt_of_le dated later

theorem refuseAll_dated : ∀ {pool : List Claim} {st : SocketStack S}, st.Dated pool →
    (st.refuseAll lib peered family n pool).1.Dated (st.refuseAll lib peered family n pool).2
  | [], _, _ => nofun
  | c :: pool, st, dated => by
    have frames := later_frames lib
    have fresh : ∀ ep : IpListenEndpoint, ep.port = n → ∀ st : SocketStack S, st.nextGen ≤ (st.fresh lib ep).1.nextGen :=
      fun ep _ st => fresh_later lib ep st
    have first := frames.refuse fresh peered family c st
    have rest := frames.refuseAll fresh peered family pool (st.refuse lib peered family n c).1
    intro c' member
    rcases List.mem_cons.1 member with rfl | member
    · exact Nat.lt_of_lt_of_le (refuse_dated (dated c List.mem_cons_self)) rest
    · exact refuseAll_dated (Dated.later (fun c member => dated c (List.mem_cons_of_mem _ member)) first) c' member

end SocketStack

/-! ## Opening a socket -/

/-- An attempt to open a socket: the claim it is made with, and what the library is told. -/
structure Attempt (S : Type) where
  gen : Nat
  handle : Nat
  run : S → Option S

namespace SocketStack

def tries (st : SocketStack S) (a : Attempt S) : SocketStack S := (st.attempt a.gen a.handle a.run).1

/-- Whether the library does as it is told. -/
def takes (st : SocketStack S) (a : Attempt S) : Bool := (st.attempt a.gen a.handle a.run).2

end SocketStack

variable (lib)

/-- The connect that `startConnect` attempts. -/
def TcpSock.connects (s : TcpSock) (nextPort : Nat) (remote : SocketAddress) : Option (Attempt S) :=
  if !remote.1.onFabric then none
  else some
    { gen := s.gen, handle := s.handle, run := fun sock => lib.connect sock remote (allocPort nextPort).1 }

/-- The listen that `startListen` attempts. -/
def TcpSock.listens (s : TcpSock) (st : SocketStack S) : Attempt S where
  gen := s.gen
  handle := s.handle
  run sock := lib.listen sock
    ((st.listenEndpoints s.family (s.localAddress.map Prod.fst) s.boundPort).headD ⟨none, 0⟩)

def TcpSocket.connects (s : TcpSocket) (nextPort : Nat) (remote : SocketAddress) : Option (Attempt S) :=
  if remote.2 = 0 || remote.1.unspecified then none
  else if s.connected || s.connecting || s.listening || s.closed then none
  else if s.family ≠ IpFamily.of remote.1 then none
  else if !remote.1.onFabric then none
  else
    let boundPort := if s.bound then s.boundPort else 0
    let lport := (if boundPort ≠ 0 then (boundPort, nextPort) else allocPort nextPort).1
    some { gen := s.gen, handle := s.handle, run := fun sock => lib.connect sock remote lport }

def TcpSocket.listens (s : TcpSocket) (st : SocketStack S) (nextPort : Nat) : Option (Attempt S) :=
  if s.listening || s.connecting || s.connected || s.closed then none
  else
    let port := (if s.bound && s.boundPort ≠ 0 then (s.boundPort, nextPort) else allocPort nextPort).1
    some
      { gen := s.gen, handle := s.handle
        run := fun sock => lib.listen sock
          ((st.listenEndpoints s.family (s.localAddress.map Prod.fst) port).headD ⟨none, 0⟩) }

/-- The opening of a TCP socket that a call attempts. -/
def NetNode.attempt (w : NetNode S) : SocketCall S → Option (Attempt S)
  | .startConnect i remote =>
    match w.resource i with
    | some (.tcp s) => s.connects lib w.nextPort remote
    | _ => none
  | .startListen i =>
    match w.resource i with
    | some (.tcp s) => some (s.listens lib w.stack)
    | _ => none
  | .connect3 i remote =>
    match w.resource i with
    | some (.tcp3 s) => s.connects lib w.nextPort remote
    | _ => none
  | .listen3 i =>
    match w.resource i with
    | some (.tcp3 s) => s.listens lib w.stack w.nextPort
    | _ => none
  | _ => none

/-! ## The calls of a node -/

namespace Frames

variable {lib} {R : SocketStack S → SocketStack S → Prop} (frame : Frames lib R) {st : SocketStack S} {hostAccess : Bool}
  {nextPort : Nat} {remote : SocketAddress}

section Open

include frame

theorem startConnect (s : TcpSock) (tries : ∀ a ∈ s.connects lib nextPort remote, R st (st.tries a)) :
    R st (s.startConnect lib st hostAccess nextPort remote).1 := by
  simp only [TcpSock.startConnect, TcpSock.connects] at tries ⊢
  split
  · split
    · exact frame.refl st
    · exact frame.refl st
  · next on =>
      have tried := tries _ (if_neg on)
      split
      · exact tried
      · exact tried

theorem connect (s : TcpSocket) (tries : ∀ a ∈ s.connects lib nextPort remote, R st (st.tries a)) :
    R st (s.connect lib st hostAccess nextPort remote).1 := by
  simp only [TcpSocket.connect, TcpSocket.connects] at tries ⊢
  by_cases invalid : (remote.2 = 0 || remote.1.unspecified) = true
  · simp only [if_pos invalid]
    exact frame.refl st
  by_cases busy : (s.connected || s.connecting || s.listening || s.closed) = true
  · simp only [if_neg invalid, if_pos busy]
    exact frame.refl st
  by_cases other : s.family ≠ IpFamily.of remote.1
  · simp only [if_neg invalid, if_neg busy, if_pos other]
    exact frame.refl st
  by_cases off : (!remote.1.onFabric) = true
  · simp only [if_neg invalid, if_neg busy, if_neg other, if_pos off]
    split
    · exact frame.refl st
    · exact frame.refl st
  simp only [if_neg invalid, if_neg busy, if_neg other, if_neg off] at tries ⊢
  have tried := tries _ rfl
  generalize (if (if s.bound = true then s.boundPort else 0) ≠ 0 then _ else allocPort nextPort) = lport at tried ⊢
  split
  · exact tried
  · exact tried

theorem startListen (s : TcpSock) (tried : R st (st.tries (s.listens lib st)))
    (armed : ∀ i st', R st' (st'.fresh lib
      ((st.listenEndpoints s.family (s.localAddress.map Prod.fst) s.boundPort).getD i ⟨none, 0⟩)).1) :
    R st (s.startListen lib st).1 := by
  simp only [TcpSock.startListen]
  split
  · exact frame.trans tried (frame.arm armed _ _)
  · exact tried

theorem listen (s : TcpSocket) (newPool : Nat) (tries : ∀ a ∈ s.listens lib st nextPort, R st (st.tries a))
    (armed : ∀ i st', R st' (st'.fresh lib ((st.listenEndpoints s.family (s.localAddress.map Prod.fst)
      (if s.bound && s.boundPort ≠ 0 then (s.boundPort, nextPort) else allocPort nextPort).1).getD i ⟨none, 0⟩)).1) :
    R st (s.listen lib st nextPort newPool).1 := by
  simp only [TcpSocket.listen, TcpSocket.listens] at tries ⊢
  split
  · exact frame.refl st
  · next idle =>
      have tried := tries _ (if_neg idle)
      generalize (if (s.bound && decide (s.boundPort ≠ 0)) = true then _ else allocPort nextPort) = port at armed tried ⊢
      split
      · exact frame.trans tried (frame.arm armed _ _)
      · exact tried

end Open

section Bind

variable (binds : ∀ n gen h (st : SocketStack S), R st (st.attempt gen h fun s => lib.bind s n).1)

include binds

theorem bindPort (s : UdpSock) (family : IpFamily) (port : Nat) : R st (s.bindPort lib st nextPort family port).1 := by
  simp only [UdpSock.bindPort]
  generalize (if port = 0 then allocPort nextPort else (port, nextPort)) = lport
  have bound := binds lport.1 s.gen s.handle st
  split
  · exact bound
  · exact bound

include frame

theorem finishBind (s : UdpSock) : R st (s.finishBind lib st nextPort).1 := by
  simp only [UdpSock.finishBind]
  split
  · exact frame.refl st
  · exact bindPort binds s _ s.boundPort

theorem bind (s : UdpSock) (addr : SocketAddress) : R st (s.bind lib st nextPort addr).1 := by
  simp only [UdpSock.bind]
  split
  · exact frame.refl st
  · split
    · exact frame.refl st
    · exact bindPort binds s s.family addr.2

theorem ensureBound (s : UdpSock) : R st (s.ensureBound lib st nextPort).1 := by
  simp only [UdpSock.ensureBound]
  split
  · exact frame.refl st
  · exact bindPort binds s s.family 0

theorem connectUdp (s : UdpSock) : R st (s.connect lib st nextPort remote).1 := by
  have ensured : R st (s.ensureBound lib st nextPort).1 := frame.ensureBound binds s
  simp only [UdpSock.connect]
  split
  · exact frame.refl st
  · split
    · exact frame.refl st
    · generalize s.ensureBound lib st nextPort = r at ensured ⊢
      obtain ⟨st', s', nextPort', answer⟩ := r
      cases answer <;> exact ensured

theorem send (s : UdpSock) (given : Option SocketAddress) : R st (s.send lib st hostAccess nextPort given).1 := by
  have ensured : R st (s.ensureBound lib st nextPort).1 := frame.ensureBound binds s
  simp only [UdpSock.send]
  generalize s.ensureBound lib st nextPort = r at ensured ⊢
  obtain ⟨st', s', nextPort', answer⟩ := r
  cases answer <;> exact ensured

end Bind

end Frames

namespace NetNode

section OnResource

variable {P : NetNode S → Prop} {w : NetNode S} {i : Nat}

theorem onTcp_cases {f : TcpSock → NetNode S} (trap : P w) (call : ∀ s, w.resource i = some (.tcp s) → P (f s)) :
    P (w.onTcp i f) := by
  simp only [onTcp]
  split
  · next s found => exact call s found
  · exact trap

theorem onTcp3_cases {f : TcpSocket → NetNode S} (trap : P w) (call : ∀ s, w.resource i = some (.tcp3 s) → P (f s)) :
    P (w.onTcp3 i f) := by
  simp only [onTcp3]
  split
  · next s found => exact call s found
  · exact trap

theorem onUdp_cases {f : UdpSock → NetNode S} (trap : P w) (call : ∀ s, w.resource i = some (.udp s) → P (f s)) :
    P (w.onUdp i f) := by
  simp only [onUdp]
  split
  · next s found => exact call s found
  · exact trap

theorem onUdp3_cases {f : UdpSock → NetNode S} (trap : P w) (call : ∀ s, w.resource i = some (.udp3 s) → P (f s)) :
    P (w.onUdp3 i f) := by
  simp only [onUdp3]
  split
  · next s found => exact call s found
  · exact trap

end OnResource

/-- Who is in the table after one resource has changed and others have come. -/
theorem resource_change {w w' : NetNode S} {i j : Nat} {r' : Option Resource} {new : List (Option Resource)} {r : Resource}
    (table : w'.table = w.table.set i r' ++ new) (here : w'.resource j = some r) :
    (j = i ∧ r' = some r) ∨ w.resource j = some r ∨ w.table.length ≤ j ∧ some r ∈ new := by
  have slot : w'.table[j]? = some (some r) := Option.join_eq_some_iff.1 here
  rw [table, List.getElem?_append, List.length_set] at slot
  split at slot
  · rw [List.getElem?_set] at slot
    split at slot
    · next same =>
        split at slot
        · exact .inl ⟨same.symm, Option.some.inj slot⟩
        · cases slot
    · exact .inr (.inl (Option.join_eq_some_iff.2 slot))
  · next past => exact .inr (.inr ⟨Nat.not_lt.1 past, List.mem_of_getElem? slot⟩)

variable {lib} {R : SocketStack S → SocketStack S → Prop} {w : NetNode S} {call : SocketCall S}

/-- A call is related if the opening it attempts is, and what the library does to the sockets by
itself. -/
theorem frame_step (frame : Frames lib R) (fresh : ∀ ep st, R st (st.fresh lib ep).1)
    (added : ∀ sock ∈ [lib.tcp, lib.udp], ∀ st, R st ((st.add sock).1.track (st.add sock).2).1)
    (binds : ∀ n gen h (st : SocketStack S), R st (st.attempt gen h fun s => lib.bind s n).1)
    (tries : ∀ a ∈ w.attempt lib call, R w.stack (w.stack.tries a))
    (io : ∀ k f, call = .io k f → ∀ gen h st, R st (st.access gen h f))
    (poll : ∀ f, call = .poll f → R w.stack (w.stack.poll f)) : R w.stack (w.step lib call).stack := by
  have still := frame.refl w.stack
  have tcp := added lib.tcp (by simp) w.stack
  have udp := added lib.udp (by simp) w.stack
  let P (w' : NetNode S) : Prop := R w.stack w'.stack
  cases call with
  | createTcp family => exact tcp
  | createUdp family => exact udp
  | createTcp3 family => exact tcp
  | createUdp3 family => exact udp
  | startBind i addr => exact onTcp_cases (P := P) still fun s _ => still
  | finishBind i => exact onTcp_cases (P := P) still fun s _ => still
  | startConnect i remote =>
    refine onTcp_cases (P := P) still fun s found => frame.startConnect s fun a same => ?_
    exact tries a (by rw [attempt, found]; exact same)
  | finishConnect i failed connected => exact onTcp_cases (P := P) still fun s _ => frame.finishConnect s _ failed connected
  | startListen i =>
    refine onTcp_cases (P := P) still fun s found => ?_
    exact frame.startListen s (tries _ (by rw [attempt, found]; rfl)) fun i st => fresh _ st
  | accept i =>
    refine onTcp_cases (P := P) still fun s _ => ?_
    have taken := frame.accept s (fun ep _ st => fresh ep st) w.stack
    generalize s.accept lib w.stack = r at taken ⊢
    obtain ⟨st, s', answer⟩ := r
    cases answer <;> exact taken
  | subscribe i => exact onTcp_cases (P := P) still fun s _ => still
  | shutdown i => exact onTcp_cases (P := P) still fun s _ => frame.close ..
  | drop i => exact onTcp_cases (P := P) still fun s _ => frame.drop s _
  | startBindUdp i addr => exact onUdp_cases (P := P) still fun s _ => still
  | finishBindUdp i => exact onUdp_cases (P := P) still fun s _ => frame.finishBind binds s
  | stream i remote => exact onUdp_cases (P := P) still fun s _ => still
  | subscribeUdp i => exact onUdp_cases (P := P) still fun s _ => still
  | dropUdp i => exact onUdp_cases (P := P) still fun s _ => frame.beginClose ..
  | bind3 i addr => exact onTcp3_cases (P := P) still fun s _ => still
  | connect3 i remote =>
    refine onTcp3_cases (P := P) still fun s found => frame.connect s fun a same => ?_
    exact tries a (by rw [attempt, found]; exact same)
  | settle3 i failed =>
    refine onTcp3_cases (P := P) still fun s _ => ?_
    split
    · exact frame.settle s _ failed
    · exact still
  | listen3 i =>
    refine onTcp3_cases (P := P) still fun s found => ?_
    have opened : R w.stack (s.listen lib w.stack w.nextPort w.pools.length).1 :=
      frame.listen s _ (fun a same => tries a (by rw [attempt, found]; exact same)) fun i st => fresh _ st
    generalize s.listen lib w.stack w.nextPort w.pools.length = r at opened ⊢
    obtain ⟨st, s', nextPort, answer⟩ := r
    cases answer <;> exact opened
  | send3 i => exact onTcp3_cases (P := P) still fun s _ => still
  | receive3 i => exact onTcp3_cases (P := P) still fun s _ => still
  | drop3 i => exact onTcp3_cases (P := P) still fun s _ => frame.drop3 s _ w.pools
  | produce p =>
    simp only [step]
    split
    · exact still
    · exact frame.pollProduce _ _ _ fun _ ep _ st => fresh ep st
  | bindUdp3 i addr => exact onUdp3_cases (P := P) still fun s _ => frame.bind binds s addr
  | connectUdp3 i remote => exact onUdp3_cases (P := P) still fun s _ => frame.connectUdp binds s
  | disconnectUdp3 i => exact onUdp3_cases (P := P) still fun s _ => still
  | sendUdp3 i given => exact onUdp3_cases (P := P) still fun s _ => frame.send binds s given
  | receiveUdp3 i => exact onUdp3_cases (P := P) still fun s _ => still
  | dropUdp3 i => exact onUdp3_cases (P := P) still fun s _ => frame.beginClose ..
  | io k f =>
    simp only [step]
    split
    · dsimp only
      split
      · exact io k f rfl _ _ _
      · exact still
    · exact still
  | await k want =>
    simp only [step]
    split
    · exact frame.watch
    · exact still
  | ready k =>
    simp only [step]
    split
    · exact frame.watch
    · exact still
  | grant hostAccess => exact still
  | poll f => exact poll f rfl
  | reap => exact frame.reapClosing _

end NetNode

end Stack

end Wk.Fabric
