/-
# Wk.Fabric.Sockets -- the sockets of one stack

The socket side of `NodeStack`: a socket set that hands out the first free slot, the
`live` map from a handle to the generation it was tracked with, and the `closing` list
the hub reaps.  A slot remembers the generation of the socket in it, and `touched`
records every access to a socket: the generation the caller meant and the one it found.

* `Sound`: what every operation keeps, given callers that mean the socket they touch.
* `Owns`: every live handle has its claim in a list of `(handle, generation)` pairs in
  which no generation occurs twice.
-/
import Wk.Fabric

namespace Wk.Fabric

set_option autoImplicit false

/-! ## The socket library -/

/-- The state of a TCP socket. -/
inductive TcpState where
  | closed | listen | synSent | synReceived | established | finWait1 | finWait2 | closeWait
  | closing | lastAck | timeWait
  deriving DecidableEq, Repr

/-- Which socket flavour a handle is. -/
inductive SockKind where
  | tcp | udp
  deriving DecidableEq, Repr

/-- An IP family on the fabric. -/
inductive IpFamily where
  | v4 | v6
  deriving DecidableEq, Repr

def IpFamily.of : IpAddress → IpFamily
  | .ipv4 _ => .v4
  | .ipv6 _ => .v6

/-- `0.0.0.0` or `::`. -/
def IpAddress.unspecified : IpAddress → Bool
  | .ipv4 a => a = { o0 := 0, o1 := 0, o2 := 0, o3 := 0 }
  | .ipv6 a => a = ⟨#v[0, 0, 0, 0, 0, 0, 0, 0]⟩

/-- The addresses the fabric carries, loopback included. -/
def IpAddress.onFabric : IpAddress → Bool
  | .ipv4 a => (a.o0 = 10 && a.o1 = 0 && a.o2 = 0) || a.o0 = 127
  | .ipv6 a => a = Ipv6.localhost || a.segments[0] >>> 8 = 0xfd

/-- A multicast group. -/
def IpAddress.multicast : IpAddress → Bool
  | .ipv4 a => a.o0 &&& 0xf0 = 0xe0
  | .ipv6 a => a.segments[0] >>> 8 = 0xff

/-- A socket address. -/
abbrev SocketAddress := IpAddress × Nat

/-- What a listener covers: one address, or every one, and a port. -/
structure IpListenEndpoint where
  addr : Option IpAddress
  port : Nat
  deriving DecidableEq, Repr

/-- The sockets of the TCP/IP library. -/
structure SocketLib (S : Type) where
  /-- A fresh TCP socket, a fresh UDP socket. -/
  tcp : S
  udp : S
  state : S → TcpState
  listen : S → IpListenEndpoint → Option S
  connect : S → SocketAddress → Nat → Option S
  bind : S → Nat → Option S
  close : S → S
  abort : S → S
  localEndpoint : S → Option SocketAddress
  remoteEndpoint : S → Option SocketAddress
  sendQueue : S → Nat
  canRecv : S → Bool
  mayRecv : S → Bool
  canSend : S → Bool
  maySend : S → Bool

/-! ## The stack -/

/-- A claim on a socket: its handle and the generation it was tracked with. -/
abbrev Claim := Nat × Nat

/-- A socket in the set, with the generation it is tracked with. -/
structure Slot (S : Type) where
  gen : Nat
  sock : S

/-- A socket whose owner has dropped, awaiting a graceful flush.  `gen` is the
generation it was live with. -/
structure Closing where
  handle : Nat
  kind : SockKind
  ticks : Nat
  gen : Nat
  deriving DecidableEq, Repr

/-- One access: the generation the caller holds, and the one of the socket it found. -/
structure Touch where
  holder : Nat
  found : Option Nat
  deriving DecidableEq, Repr

/-- Ticks to let a closing socket flush before forcing removal. -/
def closeTicks : Nat := 5000

/-- The sockets of a node's stack. -/
structure SocketStack (S : Type) where
  ip : Ipv4
  ip6 : Ipv6
  slots : Nat → Option (Slot S) := fun _ => none
  /-- How long the set's vector has grown. -/
  size : Nat := 0
  /-- Handles still owned by a live resource, with their generation. -/
  live : Nat → Option Nat := fun _ => none
  nextGen : Nat := 0
  closing : List Closing := []
  touched : List Touch := []
  /-- The generations of the sockets removed from the set. -/
  reaped : List Nat := []

namespace SocketStack

variable {S : Type} (lib : SocketLib S)

/-- The first free slot, else a new one. -/
def freeSlot (st : SocketStack S) : Nat :=
  ((List.range st.size).find? fun h => (st.slots h).isNone).getD st.size

/-- Add a socket to the set; `track` gives it its generation next. -/
def add (st : SocketStack S) (sock : S) : SocketStack S × Nat :=
  ({ st with
      slots := Function.update st.slots st.freeSlot (some { gen := st.nextGen, sock })
      size := max st.size (st.freeSlot + 1) }, st.freeSlot)

/-- Record a freshly added handle as live. -/
def track (st : SocketStack S) (h : Nat) : SocketStack S × Nat :=
  ({ st with live := Function.update st.live h (some st.nextGen), nextGen := st.nextGen + 1 },
    st.nextGen)

/-- Is `(h, gen)` still the live socket it was created as? -/
def isCurrent (st : SocketStack S) (h gen : Nat) : Bool := st.live h = some gen

/-- The socket in a slot. -/
def sock (st : SocketStack S) (h : Nat) : Option S := (st.slots h).map Slot.sock

/-- Access slot `h` for the holder of `gen`, leaving `f` of the socket there. -/
def access (st : SocketStack S) (gen h : Nat) (f : S → S) : SocketStack S :=
  { st with
    slots := Function.update st.slots h ((st.slots h).map fun s => { s with sock := f s.sock })
    touched := st.touched ++ [{ holder := gen, found := (st.slots h).map Slot.gen }] }

/-- A call on slot `h` that may fail, leaving the socket as it was. -/
def attempt (st : SocketStack S) (gen h : Nat) (f : S → Option S) : SocketStack S × Bool :=
  (st.access gen h fun s => (f s).getD s, ((st.sock h).bind f).isSome)

/-- The owner dropped: the handle is no longer live and waits to be reaped. -/
def beginClose (st : SocketStack S) (gen h : Nat) (kind : SockKind) : SocketStack S :=
  match st.live h with
  | none => st
  | some found =>
    { st with
      live := Function.update st.live h none
      closing := st.closing ++ [{ handle := h, kind, ticks := closeTicks, gen := found }]
      touched := st.touched ++ [{ holder := gen, found := some found }] }

/-- The local endpoints a TCP listener must cover. -/
def listenEndpoints (st : SocketStack S) (family : IpFamily) (bound : Option IpAddress) (port : Nat) :
    List IpListenEndpoint :=
  let all : List IpAddress := match family with
    | .v4 => [.ipv4 st.ip, .ipv4 { o0 := 127, o1 := 0, o2 := 0, o3 := 1 }]
    | .v6 => [.ipv6 st.ip6, .ipv6 Ipv6.localhost]
  match bound with
  | some addr =>
    if !addr.unspecified && IpFamily.of addr = family then [{ addr := some addr, port }]
    else all.map fun addr => { addr := some addr, port }
  | none => all.map fun addr => { addr := some addr, port }

/-- Whether a closing socket has finished draining. -/
def drained (kind : SockKind) (s : S) : Bool :=
  match kind with
  | .tcp => lib.state s = .closed
  | .udp => lib.sendQueue s = 0

/-- Remove a socket from the set. -/
def remove (st : SocketStack S) (gen h : Nat) : SocketStack S :=
  { st with
    slots := Function.update st.slots h none
    touched := st.touched ++ [{ holder := gen, found := (st.slots h).map Slot.gen }]
    reaped := st.reaped ++ ((st.slots h).map Slot.gen).toList }

/-- Look at one closing socket: it goes, or stays with a tick less. -/
def reapOne (st : SocketStack S) (c : Closing) : SocketStack S × Option Closing :=
  let done := (st.sock c.handle).any (drained lib c.kind)
  let st := st.access c.gen c.handle id
  let ticks := c.ticks - 1
  if done || ticks = 0 then (st.remove c.gen c.handle, none) else (st, some { c with ticks })

/-- Reap the closing sockets that have drained or run out of ticks. -/
def reapAll (st : SocketStack S) : List Closing → SocketStack S × List Closing
  | [] => (st, [])
  | c :: cs =>
    let (st, kept) := st.reapOne lib c
    let (st, rest) := st.reapAll cs
    (st, kept.toList ++ rest)

def reapClosing (st : SocketStack S) : SocketStack S :=
  let (st, closing) := st.reapAll lib st.closing
  { st with closing }

/-- The hub polls: any socket of the set may change. -/
def poll (st : SocketStack S) (f : Nat → S → S) : SocketStack S :=
  { st with slots := fun h => (st.slots h).map fun s => { s with sock := f h s.sock } }

/-! ## What every operation keeps -/

/-- The generation of the socket in a slot. -/
def gens (st : SocketStack S) (h : Nat) : Option Nat := (st.slots h).map Slot.gen

/-- The bookkeeping of a stack: live and closing handles are slots of the set, apart,
holding the socket they are listed for; and every access so far found its socket. -/
structure Sound (st : SocketStack S) : Prop where
  bounded : ∀ h g, st.gens h = some g → h < st.size ∧ g < st.nextGen
  apart : ∀ h h' g, st.gens h = some g → st.gens h' = some g → h = h'
  live : ∀ h g, st.live h = some g → st.gens h = some g
  closing : ∀ c ∈ st.closing, st.gens c.handle = some c.gen ∧ st.live c.handle = none
  once : (st.closing.map Closing.handle).Nodup
  ticking : ∀ c ∈ st.closing, 0 < c.ticks ∧ c.ticks ≤ closeTicks
  reapedOnce : st.reaped.Nodup
  reapedGone : ∀ g ∈ st.reaped, g < st.nextGen ∧ ∀ h, st.gens h ≠ some g
  touched : ∀ t ∈ st.touched, t.found = some t.holder

@[simp] theorem gens_access (st : SocketStack S) (gen h : Nat) (f : S → S) :
    (st.access gen h f).gens = st.gens := by
  funext h'
  simp only [gens, access, Function.update_apply]
  split
  · next here =>
      subst here
      cases st.slots h' <;> rfl
  · rfl

@[simp] theorem gens_beginClose (st : SocketStack S) (gen h : Nat) (kind : SockKind) :
    (st.beginClose gen h kind).gens = st.gens := by
  unfold beginClose
  split <;> rfl

theorem gens_add (st : SocketStack S) (sock : S) :
    (st.add sock).1.gens = Function.update st.gens st.freeSlot (some st.nextGen) := by
  funext h
  simp only [gens, add, Function.update_apply]
  split <;> rfl

theorem gens_remove (st : SocketStack S) (gen h : Nat) :
    (st.remove gen h).gens = Function.update st.gens h none := by
  funext h'
  simp only [gens, remove, Function.update_apply]
  split <;> rfl

@[simp] theorem gens_poll (st : SocketStack S) (f : Nat → S → S) : (st.poll f).gens = st.gens := by
  funext h
  simp only [gens, poll]
  cases st.slots h <;> rfl

namespace Sound

variable {st : SocketStack S}

theorem start (ip : Ipv4) (ip6 : Ipv6) : Sound ({ ip, ip6 } : SocketStack S) :=
  ⟨nofun, nofun, nofun, nofun, List.nodup_nil, nofun, List.nodup_nil, nofun, nofun⟩

/-- The slot `add` takes is free. -/
theorem gens_freeSlot (sound : st.Sound) : st.gens st.freeSlot = none := by
  unfold freeSlot
  cases found : (List.range st.size).find? fun h => (st.slots h).isNone with
  | some h =>
    have free := List.find?_some found
    simp only [Option.isNone_iff_eq_none] at free
    rw [Option.getD_some, gens, free]
    rfl
  | none =>
    rw [Option.getD_none]
    by_contra taken
    obtain ⟨g, here⟩ := Option.ne_none_iff_exists'.1 taken
    exact absurd (sound.bounded _ g here).1 (Nat.lt_irrefl _)

/-- A live handle is not the slot `add` takes. -/
theorem live_freeSlot (sound : st.Sound) : st.live st.freeSlot = none := by
  by_contra taken
  obtain ⟨g, here⟩ := Option.ne_none_iff_exists'.1 taken
  have there := sound.live _ g here
  rw [sound.gens_freeSlot] at there
  cases there

/-- A socket is added and tracked. -/
theorem addTracked (sound : st.Sound) (sock : S) :
    ((st.add sock).1.track (st.add sock).2).1.Sound := by
  have free := sound.gens_freeSlot
  have gens' : ((st.add sock).1.track (st.add sock).2).1.gens =
      Function.update st.gens st.freeSlot (some st.nextGen) := gens_add st sock
  have other : ∀ h g, st.gens h = some g → h ≠ st.freeSlot := by
    rintro h g here rfl
    rw [free] at here
    cases here
  refine ⟨fun h g here => ?_, fun h h' g here there => ?_, fun h g here => ?_, fun c member => ?_,
    sound.once, sound.ticking, sound.reapedOnce, fun g member => ?_, sound.touched⟩
  · rw [gens', Function.update_apply] at here
    split at here
    · next same =>
        cases here
        exact ⟨same ▸ Nat.lt_of_lt_of_le (Nat.lt_succ_self _) (le_max_right ..), Nat.lt_succ_self _⟩
    · have old := sound.bounded h g here
      exact ⟨Nat.lt_of_lt_of_le old.1 (le_max_left ..), Nat.lt_succ_of_lt old.2⟩
  · rw [gens', Function.update_apply] at here there
    split at here <;> split at there
    · next same same' => rw [same, same']
    · cases here
      exact absurd (sound.bounded h' _ there).2 (Nat.lt_irrefl _)
    · cases there
      exact absurd (sound.bounded h _ here).2 (Nat.lt_irrefl _)
    · exact sound.apart h h' g here there
  · rw [gens', Function.update_apply]
    simp only [track, add, Function.update_apply] at here
    split at here
    · next same => rw [if_pos same, here]
    · next differs => rw [if_neg differs, sound.live h g here]
  · have old := sound.closing c member
    have differs := other c.handle c.gen old.1
    rw [gens', Function.update_of_ne differs]
    refine ⟨old.1, ?_⟩
    simp only [track, add, Function.update_of_ne differs, old.2]
  · have old := sound.reapedGone g member
    refine ⟨Nat.lt_succ_of_lt old.1, fun h here => ?_⟩
    rw [gens', Function.update_apply] at here
    split at here
    · cases here
      exact absurd old.1 (Nat.lt_irrefl _)
    · exact old.2 h here

/-- An access by a caller that means the socket there. -/
theorem access (sound : st.Sound) {gen h : Nat} (meant : st.gens h = some gen) (f : S → S) :
    (st.access gen h f).Sound where
  bounded := by rw [gens_access]; exact sound.bounded
  apart := by rw [gens_access]; exact sound.apart
  live := by rw [gens_access]; exact sound.live
  closing := by rw [gens_access]; exact sound.closing
  once := sound.once
  ticking := sound.ticking
  reapedOnce := sound.reapedOnce
  reapedGone := by rw [gens_access]; exact sound.reapedGone
  touched t member := by
    rcases List.mem_append.1 member with old | new
    · exact sound.touched t old
    · rw [List.mem_singleton.1 new]
      exact meant

/-- A holder closes its socket. -/
theorem beginClose (sound : st.Sound) {gen h : Nat} (current : st.live h = some gen) (kind : SockKind) :
    (st.beginClose gen h kind).Sound := by
  have gens' := gens_beginClose st gen h kind
  have here := sound.live h gen current
  have closed : st.beginClose gen h kind = { st with
      live := Function.update st.live h none
      closing := st.closing ++ [{ handle := h, kind, ticks := closeTicks, gen }]
      touched := st.touched ++ [{ holder := gen, found := some gen }] } := by
    rw [SocketStack.beginClose, current]
  rw [closed] at gens' ⊢
  refine ⟨gens' ▸ sound.bounded, gens' ▸ sound.apart, fun h' g live => ?_, fun c member => ?_, ?_,
    fun c member => ?_, sound.reapedOnce, gens' ▸ sound.reapedGone, fun t member => ?_⟩
  · rw [gens']
    simp only [Function.update_apply] at live
    split at live
    · cases live
    · exact sound.live h' g live
  · rw [gens']
    rcases List.mem_append.1 member with old | new
    · have was := sound.closing c old
      refine ⟨was.1, ?_⟩
      simp only [Function.update_apply]
      split
      · rfl
      · exact was.2
    · rw [List.mem_singleton.1 new]
      exact ⟨here, Function.update_self ..⟩
  · rw [List.map_append]
    refine sound.once.append (List.nodup_singleton _) (List.disjoint_singleton.2 fun listed => ?_)
    obtain ⟨c, member, same⟩ := List.mem_map.1 listed
    have gone := (sound.closing c member).2
    rw [same, current] at gone
    cases gone
  · rcases List.mem_append.1 member with old | new
    · exact sound.ticking c old
    · rw [List.mem_singleton.1 new]
      exact ⟨(by decide : 0 < closeTicks), le_rfl⟩
  · rcases List.mem_append.1 member with old | new
    · exact sound.touched t old
    · rw [List.mem_singleton.1 new]

theorem poll (sound : st.Sound) (f : Nat → S → S) : (st.poll f).Sound where
  bounded := by rw [gens_poll]; exact sound.bounded
  apart := by rw [gens_poll]; exact sound.apart
  live := by rw [gens_poll]; exact sound.live
  closing := by rw [gens_poll]; exact sound.closing
  once := sound.once
  ticking := sound.ticking
  reapedOnce := sound.reapedOnce
  reapedGone := by rw [gens_poll]; exact sound.reapedGone
  touched := sound.touched

/-- One closing socket is removed, and no other entry is about its slot. -/
theorem remove {before after : List Closing} {c : Closing}
    (sound : ({ st with closing := before ++ c :: after } : SocketStack S).Sound) :
    ({ st.remove c.gen c.handle with closing := before ++ after } : SocketStack S).Sound := by
  obtain ⟨here, dead⟩ := sound.closing c (by simp)
  have once : (c.handle :: (before ++ after).map Closing.handle).Nodup := by
    have all := sound.once
    rw [List.map_append, List.map_cons, List.nodup_middle, ← List.map_append] at all
    exact all
  have sub : ∀ c' ∈ before ++ after, c' ∈ before ++ c :: after := fun c' member =>
    (List.sublist_cons_self c after).append_left before |>.subset member
  have gens' := gens_remove st c.gen c.handle
  have keeps : ∀ h g, (st.remove c.gen c.handle).gens h = some g → st.gens h = some g := by
    intro h g there
    rw [gens', Function.update_apply] at there
    split at there
    · cases there
    · exact there
  have reaped' : (st.remove c.gen c.handle).reaped = st.reaped ++ [c.gen] := by
    change st.reaped ++ (st.gens c.handle).toList = _
    rw [show st.gens c.handle = some c.gen from here]
    rfl
  refine ⟨fun h g there => sound.bounded h g (keeps h g there),
    fun h h' g there there' => sound.apart h h' g (keeps h g there) (keeps h' g there'),
    fun h g live => ?_, fun c' member => ?_, (List.nodup_cons.1 once).2,
    fun c' member => sound.ticking c' (sub c' member), ?_, ?_, fun t member => ?_⟩
  · have differs : h ≠ c.handle := by
      rintro rfl
      exact absurd (live.symm.trans dead) nofun
    exact (congrFun gens' h).trans ((Function.update_of_ne differs ..).trans (sound.live h g live))
  · have old := sound.closing c' (sub c' member)
    have differs : c'.handle ≠ c.handle := fun same =>
      (List.nodup_cons.1 once).1 (same ▸ List.mem_map_of_mem member)
    exact ⟨(congrFun gens' _).trans ((Function.update_of_ne differs ..).trans old.1), old.2⟩
  · change (st.remove c.gen c.handle).reaped.Nodup
    rw [reaped', List.nodup_append_comm, List.singleton_append, List.nodup_cons]
    exact ⟨fun gone => (sound.reapedGone _ gone).2 _ here, sound.reapedOnce⟩
  · intro g member
    rw [show ({ st.remove c.gen c.handle with closing := before ++ after } : SocketStack S).reaped =
      st.reaped ++ [c.gen] from reaped'] at member
    rcases List.mem_append.1 member with old | new
    · exact ⟨(sound.reapedGone g old).1, fun h there => (sound.reapedGone g old).2 h (keeps h g there)⟩
    · rw [List.mem_singleton.1 new]
      refine ⟨(sound.bounded _ _ here).2, fun h there => ?_⟩
      have same := sound.apart h c.handle c.gen (keeps h _ there) here
      have gone : (st.remove c.gen c.handle).gens h = none := by
        rw [gens', same, Function.update_self]
      exact absurd (gone.symm.trans there) nofun
  · rcases List.mem_append.1 member with old | new
    · exact sound.touched t old
    · rw [List.mem_singleton.1 new]
      exact here

/-- An entry of the closing list is put back with other ticks. -/
theorem relist {before after : List Closing} {c : Closing} {ticks : Nat}
    (sound : ({ st with closing := before ++ c :: after } : SocketStack S).Sound)
    (some : 0 < ticks) (fewer : ticks ≤ c.ticks) :
    ({ st with closing := before ++ { c with ticks } :: after } : SocketStack S).Sound := by
  have listed : ∀ c' ∈ before ++ { c with ticks } :: after, c' = { c with ticks } ∨
      c' ∈ before ++ c :: after := by
    intro c' member
    rcases List.mem_append.1 member with m | m
    · exact .inr (List.mem_append_left _ m)
    · exact (List.mem_cons.1 m).imp_right fun m => List.mem_append_right _ (List.mem_cons_of_mem _ m)
  refine ⟨sound.bounded, sound.apart, sound.live, fun c' member => ?_, ?_, fun c' member => ?_,
    sound.reapedOnce, sound.reapedGone, sound.touched⟩
  · rcases listed c' member with rfl | old
    · exact sound.closing c (by simp)
    · exact sound.closing c' old
  · have once := sound.once
    rw [List.map_append, List.map_cons] at once ⊢
    exact once
  · rcases listed c' member with rfl | old
    · exact ⟨some, fewer.trans (sound.ticking c (by simp)).2⟩
    · exact sound.ticking c' old

theorem reapOne {before after : List Closing} {c : Closing}
    (sound : ({ st with closing := before ++ c :: after } : SocketStack S).Sound) :
    ({ (st.reapOne lib c).1 with
      closing := before ++ ((st.reapOne lib c).2.toList ++ after) } : SocketStack S).Sound := by
  have looked := sound.access (sound.closing c (by simp)).1 id
  unfold SocketStack.reapOne
  dsimp only
  split
  · exact looked.remove
  · next stays =>
      simp only [Bool.or_eq_true, decide_eq_true_eq, not_or] at stays
      exact looked.relist (Nat.pos_of_ne_zero stays.2) (Nat.sub_le ..)

theorem reapAll : ∀ (cs kept : List Closing) (st : SocketStack S),
    ({ st with closing := kept ++ cs } : SocketStack S).Sound →
    ({ (st.reapAll lib cs).1 with closing := kept ++ (st.reapAll lib cs).2 } : SocketStack S).Sound
  | [], _, _, sound => sound
  | c :: cs, kept, st, sound => by
    have one := sound.reapOne lib
    rw [← List.append_assoc] at one
    have rest := reapAll cs _ (st.reapOne lib c).1 one
    rw [List.append_assoc] at rest
    exact rest

theorem reapClosing (sound : st.Sound) : (st.reapClosing lib).Sound :=
  reapAll lib st.closing [] st sound

end Sound

/-! ## Draining -/

/-- The socket of generation `g` is closed, and `n` more reaps are sure to remove it. -/
def Draining (st : SocketStack S) (g n : Nat) : Prop :=
  g ∈ st.reaped ∨ ∃ c ∈ st.closing, c.gen = g ∧ c.ticks ≤ n

/-- A closing socket waits for less than `closeTicks` reaps, and for one at least. -/
theorem Sound.draining_of_closing {st : SocketStack S} (sound : st.Sound) {c : Closing}
    (member : c ∈ st.closing) : st.Draining c.gen closeTicks :=
  .inr ⟨c, member, rfl, (sound.ticking c member).2⟩

theorem Sound.reaped_of_draining {st : SocketStack S} (sound : st.Sound) {g : Nat}
    (draining : st.Draining g 0) : g ∈ st.reaped := by
  rcases draining with gone | ⟨c, member, _, few⟩
  · exact gone
  · exact absurd few (Nat.not_le_of_lt (sound.ticking c member).1)

@[simp] theorem live_reapAll : ∀ (cs : List Closing) (st : SocketStack S),
    (st.reapAll lib cs).1.live = st.live
  | [], _ => rfl
  | c :: cs, st => by
    refine (live_reapAll cs (st.reapOne lib c).1).trans ?_
    unfold reapOne
    dsimp only
    split <;> rfl

@[simp] theorem nextGen_reapAll : ∀ (cs : List Closing) (st : SocketStack S),
    (st.reapAll lib cs).1.nextGen = st.nextGen
  | [], _ => rfl
  | c :: cs, st => by
    refine (nextGen_reapAll cs (st.reapOne lib c).1).trans ?_
    unfold reapOne
    dsimp only
    split <;> rfl

/-- One look takes the socket out of the set, or a tick off its entry. -/
theorem reapOne_cases (st : SocketStack S) {c : Closing} (here : st.gens c.handle = some c.gen) :
    ((st.reapOne lib c).2 = none ∧ (st.reapOne lib c).1.reaped = st.reaped ++ [c.gen]) ∨
      ((st.reapOne lib c).2 = some { c with ticks := c.ticks - 1 } ∧
        (st.reapOne lib c).1.reaped = st.reaped) := by
  unfold reapOne
  dsimp only
  split
  · refine .inl ⟨rfl, ?_⟩
    change st.reaped ++ ((st.access c.gen c.handle id).gens c.handle).toList = _
    rw [gens_access, here]
    rfl
  · exact .inr ⟨rfl, rfl⟩

theorem reapAll_drains : ∀ (cs kept : List Closing) (st : SocketStack S),
    ({ st with closing := kept ++ cs } : SocketStack S).Sound →
    (∀ g ∈ st.reaped, g ∈ (st.reapAll lib cs).1.reaped) ∧
      ∀ c ∈ cs, c.gen ∈ (st.reapAll lib cs).1.reaped ∨
        { c with ticks := c.ticks - 1 } ∈ (st.reapAll lib cs).2
  | [], _, _, _ => ⟨fun _ member => member, nofun⟩
  | c :: cs, kept, st, sound => by
    have here : st.gens c.handle = some c.gen := (sound.closing c (by simp)).1
    have one := sound.reapOne lib
    rw [← List.append_assoc] at one
    have rest := reapAll_drains cs _ (st.reapOne lib c).1 one
    have grown : ∀ g ∈ st.reaped, g ∈ (st.reapOne lib c).1.reaped := by
      intro g member
      rcases reapOne_cases lib st here with ⟨_, same⟩ | ⟨_, same⟩ <;> rw [same]
      · exact List.mem_append_left _ member
      · exact member
    refine ⟨fun g member => rest.1 g (grown g member), fun c' member => ?_⟩
    rcases List.mem_cons.1 member with rfl | later
    · rcases reapOne_cases lib st here with ⟨_, same⟩ | ⟨stays, _⟩
      · exact .inl (rest.1 _ (by rw [same]; simp))
      · have kept : { c' with ticks := c'.ticks - 1 } ∈ (st.reapOne lib c').2.toList := by
          rw [stays]
          exact List.mem_singleton_self _
        exact .inr (List.mem_append_left _ kept)
    · exact (rest.2 c' later).imp_right fun m => List.mem_append_right _ m

/-- A reap brings every closing socket nearer to its removal. -/
theorem Draining.reapClosing {st : SocketStack S} (sound : st.Sound) {g n : Nat}
    (draining : st.Draining g (n + 1)) : (st.reapClosing lib).Draining g n := by
  have drains := reapAll_drains lib st.closing [] st sound
  rcases draining with gone | ⟨c, member, rfl, few⟩
  · exact .inl (drains.1 g gone)
  · exact (drains.2 c member).imp_right fun m =>
      ⟨{ c with ticks := c.ticks - 1 }, m, rfl, Nat.sub_le_iff_le_add.2 few⟩

/-! ## The claims on live sockets -/

/-- What operations of owners make of a stack, starting from `old`.  The `held` claims are
those of resources, which use their handle without a check, the `spare` ones those of
pool slots: every live handle has its claim, no two claims are of one generation, and
what is held is live. -/
structure Owned (old st : SocketStack S) (held spare : List Claim) : Prop where
  sound : st.Sound
  owned : ∀ h g, st.live h = some g → (h, g) ∈ held ++ spare
  distinct : ((held ++ spare).map Prod.snd).Nodup
  dated : ∀ c ∈ held ++ spare, c.2 < st.nextGen
  current : ∀ c ∈ held, st.live c.1 = some c.2
  drains : ∀ g n, old.Draining g n → st.Draining g n

namespace Owned

variable {old st : SocketStack S} {held spare : List Claim} {c : Claim}

theorem congr {held' spare' : List Claim} (owned : Owned old st held spare)
    (held_perm : held.Perm held') (spare_perm : spare.Perm spare') : Owned old st held' spare' where
  sound := owned.sound
  owned h g live := (held_perm.append spare_perm).mem_iff.1 (owned.owned h g live)
  distinct := ((held_perm.append spare_perm).map Prod.snd).nodup_iff.1 owned.distinct
  dated c member := owned.dated c ((held_perm.append spare_perm).mem_iff.2 member)
  current c member := owned.current c (held_perm.mem_iff.2 member)
  drains := owned.drains

/-- The stack itself is where the next operations start from. -/
theorem rebase (owned : Owned old st held spare) : Owned st st held spare :=
  { owned with drains := fun _ _ draining => draining }

/-- The owner of a claim moves it to a pool. -/
theorem spared (owned : Owned old st (c :: held) spare) : Owned old st held (c :: spare) := by
  have perm : (c :: held ++ spare).Perm (held ++ c :: spare) := List.perm_middle.symm
  exact ⟨owned.sound, fun h g live => perm.mem_iff.1 (owned.owned h g live),
    (perm.map Prod.snd).nodup_iff.1 owned.distinct,
    fun c' member => owned.dated c' (perm.mem_iff.2 member),
    fun c' member => owned.current c' (List.mem_cons_of_mem _ member), owned.drains⟩

/-- A pool slot whose socket is live becomes the socket of a resource. -/
theorem taken (owned : Owned old st held (c :: spare)) (live : st.live c.1 = some c.2) :
    Owned old st (c :: held) spare := by
  have perm : (held ++ c :: spare).Perm (c :: held ++ spare) := List.perm_middle
  refine ⟨owned.sound, fun h g live => perm.mem_iff.1 (owned.owned h g live),
    (perm.map Prod.snd).nodup_iff.1 owned.distinct,
    fun c' member => owned.dated c' (perm.mem_iff.2 member), fun c' member => ?_, owned.drains⟩
  rcases List.mem_cons.1 member with rfl | old
  · exact live
  · exact owned.current c' old

/-- A claim on a socket that is not live any more lapses. -/
theorem lapse (owned : Owned old st held (c :: spare)) (dead : st.live c.1 ≠ some c.2) :
    Owned old st held spare := by
  have perm : (held ++ c :: spare).Perm (c :: (held ++ spare)) := List.perm_middle
  have distinct := (perm.map Prod.snd).nodup_iff.1 owned.distinct
  refine ⟨owned.sound, fun h g live => ?_, (List.nodup_cons.1 distinct).2,
    fun c' member => owned.dated c' (perm.mem_iff.2 (List.mem_cons_of_mem _ member)),
    owned.current, owned.drains⟩
  rcases List.mem_cons.1 (perm.mem_iff.1 (owned.owned h g live)) with same | member
  · subst same
    exact absurd live dead
  · exact member

/-- An access by a caller that means the live socket there. -/
theorem access (owned : Owned old st held spare) (live : st.live c.1 = some c.2) (f : S → S) :
    Owned old (st.access c.2 c.1 f) held spare where
  sound := owned.sound.access (owned.sound.live _ _ live) f
  owned := owned.owned
  distinct := owned.distinct
  dated := owned.dated
  current := owned.current
  drains := owned.drains

/-- A socket is added and tracked, for a resource. -/
theorem addTracked (owned : Owned old st held spare) (sock : S) :
    Owned old ((st.add sock).1.track (st.add sock).2).1
      (((st.add sock).2, ((st.add sock).1.track (st.add sock).2).2) :: held) spare := by
  refine ⟨owned.sound.addTracked sock, fun h g live => ?_, ?_, fun c member => ?_, fun c member => ?_,
    owned.drains⟩
  · simp only [track, Function.update_apply] at live
    split at live
    · next same =>
        cases live
        rw [same]
        exact List.mem_cons_self ..
    · exact List.mem_cons_of_mem _ (owned.owned h g live)
  · rw [List.cons_append, List.map_cons, List.nodup_cons]
    refine ⟨fun listed => ?_, owned.distinct⟩
    obtain ⟨c, member, same⟩ := List.mem_map.1 listed
    exact absurd (owned.dated c member) (same ▸ Nat.lt_irrefl _)
  · rcases List.mem_cons.1 member with rfl | old
    · exact Nat.lt_succ_self _
    · exact Nat.lt_succ_of_lt (owned.dated c old)
  · rcases List.mem_cons.1 member with rfl | old
    · exact Function.update_self ..
    · have live := owned.current c old
      have differs : c.1 ≠ st.freeSlot := by
        rintro same
        rw [same, owned.sound.live_freeSlot] at live
        cases live
      exact (Function.update_of_ne differs ..).trans live

/-- The owner of a held claim closes its socket, and is left with a dead claim. -/
theorem beginClose (owned : Owned old st (c :: held) spare) (kind : SockKind) :
    Owned old (st.beginClose c.2 c.1 kind) held (c :: spare) := by
  have live := owned.current c (List.mem_cons_self ..)
  have closed : (st.beginClose c.2 c.1 kind).live = Function.update st.live c.1 none := by
    rw [SocketStack.beginClose, live]
  have dated : (st.beginClose c.2 c.1 kind).nextGen = st.nextGen := by
    rw [SocketStack.beginClose, live]
  have was := owned.spared
  have distinct := List.nodup_cons.1 owned.distinct
  refine ⟨owned.sound.beginClose live kind, fun h g there => ?_, was.distinct,
    fun c' member => dated ▸ was.dated c' member, fun c' member => ?_, fun g n draining => ?_⟩
  · rw [closed, Function.update_apply] at there
    split at there
    · cases there
    · exact was.owned h g there
  · have there := was.current c' member
    have differs : c'.1 ≠ c.1 := by
      intro same
      rw [same, live] at there
      exact distinct.1 (Option.some.inj there ▸ List.mem_map_of_mem (List.mem_append_left _ member))
    rw [closed, Function.update_of_ne differs, there]
  · rw [SocketStack.beginClose, live]
    exact (owned.drains g n draining).imp_right fun ⟨c', member, same⟩ =>
      ⟨c', List.mem_append_left _ member, same⟩

/-- After a close nothing is live in the slot. -/
theorem live_beginClose (st : SocketStack S) (gen h : Nat) (kind : SockKind) :
    (st.beginClose gen h kind).live h = none := by
  unfold SocketStack.beginClose
  split
  · next dead => exact dead
  · exact Function.update_self ..

/-- The owner of a held claim closes its socket, and the claim is dropped. -/
theorem close (owned : Owned old st (c :: held) spare) (kind : SockKind) :
    Owned old (st.beginClose c.2 c.1 kind) held spare :=
  (owned.beginClose kind).lapse (by rw [live_beginClose]; exact nofun)

theorem poll (owned : Owned old st held spare) (f : Nat → S → S) :
    Owned old (st.poll f) held spare where
  sound := owned.sound.poll f
  owned := owned.owned
  distinct := owned.distinct
  dated := owned.dated
  current := owned.current
  drains := owned.drains

/-- The reaper passes. -/
theorem reapClosing (owned : Owned old st held spare) :
    Owned (st.reapClosing lib) (st.reapClosing lib) held spare where
  sound := owned.sound.reapClosing lib
  owned h g live := owned.owned h g ((congrFun (live_reapAll lib st.closing st) h).symm.trans live)
  distinct := owned.distinct
  dated c member := lt_of_lt_of_eq (owned.dated c member) (nextGen_reapAll lib st.closing st).symm
  current c member := (congrFun (live_reapAll lib st.closing st) c.1).trans (owned.current c member)
  drains _ _ draining := draining

end Owned

end SocketStack

end Wk.Fabric
