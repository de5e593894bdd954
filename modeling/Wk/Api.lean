/-
# Wk.Api -- serving clients, and who is attached to which terminal

Every client has a connection of its own, served by one loop on one thread, and while it
is attached to a node's terminal a second thread, the pump, drains that terminal's output.
The server keeps one mark a node for all of them.

A loop is its place in the program (`Pc`), and a step ends where another thread can come
between: at a read, a write, a call on the server handle, a join.  What a call or a write
meets (whether the token grants, whether the stream still takes bytes) comes with the
step.  The bytes that pass are left out.
-/
import Wk.Protocol
import Wk.Library.Run

namespace Wk.Api

open Wk.Library

set_option autoImplicit false

/-- `ClientMsg`. -/
inductive ClientMsg where
  | getSnapshot
  | command (command : Command)
  | attach (node : NodeId)
  | input (bytes : Bytes)
  | resize (cols rows : Nat)
  | detach
  | logs (node : NodeId) (follow : Bool)

/-- What `Attach::end` returns to. -/
inductive Next where
  | attach (node : NodeId)
  | detach
  | leave
  deriving DecidableEq, Repr

/-- Where the loop of a connection is. -/
inductive Pc where
  | reading
  /-- In `Attach::end`: the pump has been told to stop and is waited for. -/
  | ending (node : NodeId) (next : Next)
  /-- An attach request, before `term_io`; `held` is what was attached when it was read. -/
  | asking (node : NodeId) (held : Option NodeId)
  /-- `term_io` found the terminal; before `set_attached(node, true)`. -/
  | marking (node : NodeId) (held : Option NodeId)
  /-- The node is marked; `Attached` is about to be written. -/
  | confirming (node : NodeId)
  /-- The node would not be marked; before `set_attached(node, false)`. -/
  | unmarking (node : NodeId)
  /-- A logs request, before `term_io`. -/
  | finding (node : NodeId) (follow : Bool)
  /-- A reply is about to be written, and `more` after it. -/
  | replying (more : Nat) (follow : Bool)
  /-- Following a log. -/
  | following
  /-- `serve_client` has returned. -/
  | returned
  deriving DecidableEq, Repr

/-- A pump that has not ended. -/
structure Pump where
  node : NodeId
  stop : Bool := false
  deriving DecidableEq, Repr

/-- One call of `serve_client`. -/
structure Conn where
  pc : Pc := .reading
  /-- The loop's `attach`; what is still there on a return was dropped, not ended. -/
  attach : Option NodeId := none
  pump : Option Pump := none
  deriving DecidableEq, Repr

namespace Conn

/-- The node a live connection holds an attach to: from the moment the node was marked for
it to the moment `end` clears the mark. -/
def holds (c : Conn) : Option NodeId :=
  match c.pc with
  | .ending node _ => some node
  | .confirming node => some node
  | .returned => none
  | _ => c.attach

/-- `if let Some(a) = attach.take() { a.end(&handle); }`, up to the join. -/
def endAttach (c : Conn) (next : Next) (otherwise : Pc) : Conn :=
  match c.attach with
  | some node =>
    { pc := .ending node next, attach := none, pump := c.pump.map fun p => { p with stop := true } }
  | none => { c with pc := otherwise }

/-- Where the loop goes with this many replies still to write. -/
def settle (replies : Nat) (follow : Bool) : Pc :=
  match replies with
  | 0 => if follow then .following else .reading
  | more + 1 => .replying more follow

/-- The loop's `match msg`, up to the first call or reply. -/
def dispatch (c : Conn) : ClientMsg → Conn
  | .getSnapshot | .command _ => { c with pc := .replying 0 false }
  | .attach node => c.endAttach (.attach node) (.asking node none)
  | .input _ | .resize .. => c
  | .detach => c.endAttach .detach (.replying 0 false)
  | .logs node follow => { c with pc := .finding node follow }

/-- After `Attach::end`. -/
def resume (node : NodeId) : Next → Pc
  | .attach next => .asking next (some node)
  | .detach => .replying 0 false
  | .leave => .returned

end Conn

/-- What one turn of a pump, or of a followed log, meets. -/
inductive Turn where
  | idle
  | wrote
  | writeFailed
  | closed
  deriving DecidableEq, Repr

def Turn.ends : Turn → Bool
  | .idle | .wrote => false
  | .writeFailed | .closed => true

abbrev ConnId := Nat

inductive Event where
  /-- `read_msg` gives a message. -/
  | message (c : ConnId) (msg : ClientMsg)
  /-- `read_msg` fails: a malformed line, or the stream. -/
  | malformed (c : ConnId)
  | eof (c : ConnId)
  /-- The join in `Attach::end` returns. -/
  | joined (c : ConnId)
  /-- `term_io`; of a log also whether it has bytes to send. -/
  | lookup (c : ConnId) (granted logged : Bool)
  /-- `set_attached(node, true)`. -/
  | mark (c : ConnId) (granted : Bool)
  /-- `set_attached(node, false)` after a refusal. -/
  | unmark (c : ConnId)
  /-- A reply is written, or cannot be. -/
  | send (c : ConnId) (ok : Bool)
  | follow (c : ConnId) (turn : Turn)
  | pump (c : ConnId) (turn : Turn)
  /-- The server's app nodes are others now. -/
  | server (nodes : NodeId → Option Bool)

structure Service where
  /-- The app nodes, and whether each is a command on a terminal. -/
  nodes : NodeId → Option Bool
  /-- The server's marks. -/
  attached : Finset NodeId := ∅
  conns : ConnId → Conn := fun _ => {}

namespace Service

/-- `Server::set_attached`. -/
def setAttached (s : Service) (node : NodeId) (on : Bool) : Bool × Service :=
  let isTerminal := (s.nodes node).getD false
  (isTerminal,
    if on then
      if isTerminal then { s with attached := insert node s.attached } else s
    else { s with attached := s.attached.erase node })

/-- `ServerHandle::set_attached`: releasing is always allowed. -/
def handleSetAttached (s : Service) (granted : Bool) (node : NodeId) (on : Bool) : Bool × Service :=
  if on && !granted then (false, s) else s.setAttached node on

/-- `ServerHandle::term_io`. -/
def termIo (s : Service) (granted : Bool) (node : NodeId) : Bool := granted && (s.nodes node).isSome

theorem mark_of_may {s : Service} {granted : Bool} {node : NodeId}
    (may : (granted && (s.nodes node).getD false) = true) :
    s.handleSetAttached granted node true = (true, { s with attached := insert node s.attached }) := by
  obtain ⟨rfl, terminal⟩ := Bool.and_eq_true_iff.1 may
  simp [handleSetAttached, setAttached, terminal]

theorem mark_of_may_not {s : Service} {granted : Bool} {node : NodeId}
    (may_not : (granted && (s.nodes node).getD false) = false) :
    s.handleSetAttached granted node true = (false, s) := by
  cases granted with
  | false => rfl
  | true =>
    rw [Bool.true_and] at may_not
    simp [handleSetAttached, setAttached, may_not]

theorem release_erases (s : Service) (granted : Bool) (node : NodeId) :
    (s.handleSetAttached granted node false).2 = { s with attached := s.attached.erase node } := rfl

/-- One connection is changed. -/
def put (s : Service) (c : ConnId) (conn : Conn) : Service :=
  { s with conns := Function.update s.conns c conn }

/-- What is read comes to a loop that is reading. -/
def onRead (s : Service) (c : ConnId) (f : Conn → Conn) : Service :=
  match (s.conns c).pc with
  | .reading => s.put c (f (s.conns c))
  | _ => s

/-- One thread takes a step, if it is where the event says. -/
def step (s : Service) : Event → Service
  | .message c msg => s.onRead c (·.dispatch msg)
  | .malformed c => s.onRead c ({ · with pc := .returned })
  | .eof c => s.onRead c (·.endAttach .leave .returned)
  | .joined c =>
    match (s.conns c).pc, (s.conns c).pump with
    | .ending node next, none =>
      (s.handleSetAttached true node false).2.put c { s.conns c with pc := Conn.resume node next }
    | _, _ => s
  | .lookup c granted logged =>
    match (s.conns c).pc with
    | .asking node held =>
      s.put c { s.conns c with pc := if s.termIo granted node then .marking node held else .replying 0 false }
    | .finding node follow =>
      s.put c { s.conns c with
        pc :=
          if s.termIo granted node then
            Conn.settle ((if logged then 1 else 0) + if follow then 0 else 1) follow
          else .replying 0 false }
    | _ => s
  | .mark c granted =>
    match (s.conns c).pc with
    | .marking node _ =>
      let (marked, s) := s.handleSetAttached granted node true
      s.put c { s.conns c with pc := if marked then .confirming node else .unmarking node }
    | _ => s
  | .unmark c =>
    match (s.conns c).pc with
    | .unmarking node =>
      (s.handleSetAttached true node false).2.put c { s.conns c with pc := .replying 0 false }
    | _ => s
  | .send c ok =>
    match (s.conns c).pc with
    | .confirming node =>
      if ok then s.put c { pc := .reading, attach := some node, pump := some { node } }
      else s.put c { s.conns c with pc := .returned }
    | .replying more follow =>
      s.put c { s.conns c with pc := if ok then Conn.settle more follow else .returned }
    | _ => s
  | .follow c turn =>
    match (s.conns c).pc with
    | .following => if turn.ends then s.put c { s.conns c with pc := .reading } else s
    | _ => s
  | .pump c turn =>
    match (s.conns c).pump with
    | some p => if p.stop || turn.ends then s.put c { s.conns c with pump := none } else s
    | none => s
  | .server nodes => { s with nodes := nodes }

/-- A server that has served nobody yet. -/
def fresh (nodes : NodeId → Option Bool) : Service := { nodes }

/-! ## The law, and the runs that keep it -/

/-- A refusal of an attach request: whose, and what the connection held when it was read. -/
def refusal (s : Service) : Event → Option (ConnId × Option NodeId)
  | .lookup c granted _ =>
    match (s.conns c).pc with
    | .asking node held => if s.termIo granted node then none else some (c, held)
    | _ => none
  | .mark c granted =>
    match (s.conns c).pc with
    | .marking node held => if (s.handleSetAttached granted node true).1 then none else some (c, held)
    | _ => none
  | _ => none

/-- A refused request changes nothing: no mark, and not what the connection held. -/
def RefusalKeeps (s : Service) (e : Event) : Prop :=
  (∀ c held, s.refusal e = some (c, held) →
    ((s.step e).conns c).holds = held ∧ (s.step e).attached = s.attached) ∧
  ∀ c, e = .unmark c → (s.step e).attached = s.attached

/-- Marks, pumps and connections as they should be. -/
structure Lawful (s : Service) : Prop where
  marked : ∀ node, node ∈ s.attached ↔ ∃ c, (s.conns c).holds = some node
  pumps : ∀ c c' p p', (s.conns c).pump = some p → (s.conns c').pump = some p' → p.node = p'.node → c = c'
  returned : ∀ c, (s.conns c).pc = .returned → (s.conns c).pump = none ∧ (s.conns c).attach = none

/-- What a step must not meet: an error in a loop that holds an attach, a second attach to a
node, a refusal in a loop that held an attach, a release of a node someone else holds. -/
def Orderly (s : Service) : Event → Prop
  | .malformed c => (s.conns c).pc = .reading → (s.conns c).holds = none
  | .send c ok => ok = false → (s.conns c).holds = none
  | .lookup c granted _ => ∀ node held, (s.conns c).pc = .asking node held → s.termIo granted node = false → held = none
  | .mark c granted => ∀ node held, (s.conns c).pc = .marking node held →
      if (granted && (s.nodes node).getD false) = true then node ∉ s.attached else held = none
  | .unmark c => ∀ node, (s.conns c).pc = .unmarking node → node ∉ s.attached
  | _ => True

end Service

namespace Conn

/-- Between `take` and the next attach the loop's variable is empty. -/
def Pc.between : Pc → Bool
  | .ending .. | .asking .. | .marking .. | .confirming _ | .unmarking _ | .returned => true
  | _ => false

theorem holds_of_plain {c : Conn} (plain : Pc.between c.pc = false) : c.holds = c.attach := by
  unfold holds
  split <;> first | rfl | (next pc => rw [pc] at plain; cases plain)

theorem settle_plain (replies : Nat) (follow : Bool) : Pc.between (settle replies follow) = false := by
  unfold settle
  split
  · split <;> rfl
  · rfl

/-- A pump drains only what its connection holds. -/
structure Fine (c : Conn) : Prop where
  pump : ∀ p, c.pump = some p → c.holds = some p.node
  between : Pc.between c.pc = true → c.attach = none

theorem Fine.pump_none {c : Conn} (fine : c.Fine) (free : c.holds = none) : c.pump = none := by
  cases there : c.pump with
  | none => rfl
  | some p => exact absurd (fine.pump p there) (by simp [free])

theorem Fine.of_holds {c c' : Conn} (fine : c.Fine) (same : c'.holds = c.holds)
    (pump : ∀ p', c'.pump = some p' → ∃ p, c.pump = some p ∧ p.node = p'.node)
    (empty : Pc.between c'.pc = true → c'.attach = none) : c'.Fine where
  pump p' there := by
    obtain ⟨p, there, node⟩ := pump p' there
    rw [same, fine.pump p there, node]
  between := empty

theorem Fine.goto {c : Conn} (fine : c.Fine) {pc : Pc} (same : ({ c with pc } : Conn).holds = c.holds)
    (empty : Pc.between pc = true → c.attach = none) : ({ c with pc } : Conn).Fine :=
  fine.of_holds same (fun p there => ⟨p, there, rfl⟩) empty

theorem fine_new : Fine {} where
  pump _ there := by cases there
  between between := by cases between

end Conn

namespace Service

/-- The invariant: nobody shares a node, and the marks are what is held. -/
structure Good (s : Service) : Prop where
  fine : ∀ c, (s.conns c).Fine
  alone : ∀ c c' node, (s.conns c).holds = some node → (s.conns c').holds = some node → c = c'
  marked : ∀ node, node ∈ s.attached ↔ ∃ c, (s.conns c).holds = some node

theorem good_fresh (nodes : NodeId → Option Bool) : (fresh nodes).Good where
  fine _ := Conn.fine_new
  alone _ _ _ holds := by cases holds
  marked node := ⟨fun member => absurd member (Finset.notMem_empty node), fun ⟨_, holds⟩ => by cases holds⟩

variable {s : Service}

theorem Good.lawful (good : s.Good) : s.Lawful where
  marked := good.marked
  pumps c c' p p' there there' same :=
    good.alone c c' p.node ((good.fine c).pump p there) (same ▸ (good.fine c').pump p' there')
  returned c returned := by
    have free : (s.conns c).holds = none := by simp [Conn.holds, returned]
    exact ⟨(good.fine c).pump_none free, (good.fine c).between (by rw [returned]; rfl)⟩

theorem put_conns (c c' : ConnId) (conn : Conn) :
    (s.put c conn).conns c' = if c' = c then conn else s.conns c' :=
  Function.update_apply ..

theorem Good.put_fine (good : s.Good) {c : ConnId} {conn : Conn} (fine : conn.Fine) (c' : ConnId) :
    ((s.put c conn).conns c').Fine := by
  rw [put_conns]
  split
  · exact fine
  · exact good.fine c'

/-- A connection changes, and holds what it held. -/
theorem Good.keep (good : s.Good) {c : ConnId} {conn : Conn} (fine : conn.Fine)
    (same : conn.holds = (s.conns c).holds) : (s.put c conn).Good := by
  have holds : ∀ c', ((s.put c conn).conns c').holds = (s.conns c').holds := fun c' => by
    rw [put_conns]
    split
    · next here => rw [here, same]
    · rfl
  refine ⟨good.put_fine fine, fun c₁ c₂ node one two => ?_, fun node => ?_⟩
  · rw [holds] at one two
    exact good.alone c₁ c₂ node one two
  · simp only [holds]
    exact good.marked node

/-- A connection takes a node nobody holds. -/
theorem Good.take (good : s.Good) {c : ConnId} {conn : Conn} {node : NodeId} (fine : conn.Fine)
    (takes : conn.holds = some node) (free : (s.conns c).holds = none) (unmarked : node ∉ s.attached) :
    Good { s.put c conn with attached := insert node s.attached } := by
  have nobody : ∀ c', (s.conns c').holds ≠ some node := fun c' holds =>
    unmarked ((good.marked node).2 ⟨c', holds⟩)
  refine ⟨good.put_fine fine, fun c₁ c₂ n one two => ?_, fun n => ?_⟩
  · simp only [put_conns] at one two
    split at one <;> split at two
    · next here there => exact here.trans there.symm
    · cases takes.symm.trans one
      exact absurd two (nobody c₂)
    · cases takes.symm.trans two
      exact absurd one (nobody c₁)
    · exact good.alone c₁ c₂ n one two
  · simp only [put_conns, Finset.mem_insert, good.marked]
    constructor
    · rintro (rfl | ⟨c', holds⟩)
      · exact ⟨c, by rw [if_pos rfl, takes]⟩
      · refine ⟨c', ?_⟩
        rw [if_neg fun here => ?_, holds]
        rw [here, free] at holds
        cases holds
    · rintro ⟨c', holds⟩
      split at holds
      · exact .inl (Option.some.inj (holds.symm.trans takes))
      · exact .inr ⟨c', holds⟩

/-- A connection lets go of what it holds. -/
theorem Good.release (good : s.Good) {c : ConnId} {conn : Conn} {node : NodeId} (fine : conn.Fine)
    (held : (s.conns c).holds = some node) (free : conn.holds = none) :
    Good { s.put c conn with attached := s.attached.erase node } := by
  refine ⟨good.put_fine fine, fun c₁ c₂ n one two => ?_, fun n => ?_⟩
  · simp only [put_conns] at one two
    split at one
    · cases free.symm.trans one
    · split at two
      · cases free.symm.trans two
      · exact good.alone c₁ c₂ n one two
  · simp only [put_conns, Finset.mem_erase, good.marked]
    constructor
    · rintro ⟨other, c', holds⟩
      refine ⟨c', ?_⟩
      rw [if_neg fun here => ?_, holds]
      rw [here, held] at holds
      exact other (Option.some.inj holds).symm
    · rintro ⟨c', holds⟩
      split at holds
      · cases free.symm.trans holds
      · next elsewhere =>
          refine ⟨fun same => elsewhere ?_, c', holds⟩
          exact good.alone c' c node (same ▸ holds) held

/-- A loop goes on, and its connection holds what it held. -/
theorem Good.goto (good : s.Good) {c : ConnId} {pc : Pc}
    (same : ({ s.conns c with pc } : Conn).holds = (s.conns c).holds)
    (empty : Conn.Pc.between pc = true → (s.conns c).attach = none) :
    (s.put c { s.conns c with pc }).Good :=
  good.keep ((good.fine c).goto same empty) same

/-- A loop outside an attach request goes on to another place outside one. -/
theorem Good.goPlain (good : s.Good) {c : ConnId} {pc : Pc} (was : Conn.Pc.between (s.conns c).pc = false)
    (plain : Conn.Pc.between pc = false) : (s.put c { s.conns c with pc }).Good :=
  good.goto ((Conn.holds_of_plain plain).trans (Conn.holds_of_plain was).symm)
    fun between => by cases plain.symm.trans between

/-- A loop begins to end what is attached, or goes on with nothing attached. -/
theorem Good.endAttach (good : s.Good) {c : ConnId} (reading : (s.conns c).pc = .reading) {next : Next} {pc : Pc}
    (free : ({ s.conns c with pc, attach := none } : Conn).holds = none) :
    (s.put c ((s.conns c).endAttach next pc)).Good := by
  unfold Conn.endAttach
  split
  · next node attached =>
      have same : (s.conns c).holds = some node := by simp [Conn.holds, reading, attached]
      refine good.keep ((good.fine c).of_holds (same ▸ rfl) (fun p' there => ?_) fun _ => rfl) (same ▸ rfl)
      obtain ⟨p, found, rfl⟩ := Option.map_eq_some_iff.1 there
      exact ⟨p, found, rfl⟩
  · next empty =>
      refine good.goto ?_ fun _ => empty
      have same : (s.conns c).holds = none := by simp [Conn.holds, reading, empty]
      rw [same, ← free, ← empty]

theorem Good.onRead (good : s.Good) {c : ConnId} {f : Conn → Conn}
    (kept : (s.conns c).pc = .reading → (s.put c (f (s.conns c))).Good) : (s.onRead c f).Good := by
  unfold Service.onRead
  split
  · next reading => exact kept reading
  · exact good

theorem Good.step (good : s.Good) (e : Event) (orderly : s.Orderly e) : (s.step e).Good := by
  cases e with
  | message c msg =>
    refine Good.onRead (f := (·.dispatch msg)) good fun reading => ?_
    cases msg with
    | getSnapshot => exact good.goPlain (by rw [reading]; rfl) rfl
    | command => exact good.goPlain (by rw [reading]; rfl) rfl
    | attach node => exact good.endAttach reading rfl
    | input => exact good.keep (good.fine c) rfl
    | resize => exact good.keep (good.fine c) rfl
    | detach => exact good.endAttach reading rfl
    | logs node follow => exact good.goPlain (by rw [reading]; rfl) rfl
  | malformed c =>
    refine Good.onRead (f := ({ · with pc := .returned })) good fun reading => ?_
    have free := orderly reading
    refine good.goto (free ▸ rfl) fun _ => ?_
    simpa [Conn.holds, reading] using free
  | eof c =>
    refine Good.onRead (f := (·.endAttach .leave .returned)) good fun reading => ?_
    exact good.endAttach reading rfl
  | joined c =>
    simp only [Service.step]
    split
    · next node next ending ended =>
        have fine := good.fine c
        have empty : (s.conns c).attach = none := fine.between (by rw [ending]; rfl)
        have free : ({ s.conns c with pc := Conn.resume node next } : Conn).holds = none := by
          cases next <;> simp [Conn.holds, Conn.resume, empty]
        exact good.release ⟨fun p there => (by cases ended.symm.trans there), fun _ => empty⟩
          (by simp [Conn.holds, ending]) free
    · exact good
  | lookup c granted logged =>
    simp only [Service.step]
    split
    · next node held asking =>
        have empty : (s.conns c).attach = none := (good.fine c).between (by rw [asking]; rfl)
        refine good.goto ?_ fun _ => empty
        split <;> simp [Conn.holds, asking]
    · next node follow finding =>
        refine good.goPlain (by rw [finding]; rfl) ?_
        split
        · exact Conn.settle_plain ..
        · rfl
    · exact good
  | mark c granted =>
    simp only [Service.step]
    split
    · next node held marking =>
        have empty : (s.conns c).attach = none := (good.fine c).between (by rw [marking]; rfl)
        have free : (s.conns c).holds = none := by simp [Conn.holds, marking, empty]
        have calm := orderly node held marking
        cases may : granted && (s.nodes node).getD false with
        | true =>
          rw [may, if_pos rfl] at calm
          have pumpless := (good.fine c).pump_none free
          rw [mark_of_may may]
          exact good.take ⟨fun p there => (by cases pumpless.symm.trans there), fun _ => empty⟩ rfl free calm
        | false =>
          rw [mark_of_may_not may]
          exact good.goto (free ▸ empty) fun _ => empty
    · exact good
  | unmark c =>
    simp only [Service.step]
    split
    · next node unmarking =>
        have empty : (s.conns c).attach = none := (good.fine c).between (by rw [unmarking]; rfl)
        rw [release_erases, Finset.erase_eq_of_notMem (orderly node unmarking)]
        exact good.goto (by simp [Conn.holds, unmarking]) fun _ => empty
    · exact good
  | send c ok =>
    simp only [Service.step]
    split
    · next node confirming =>
        have holds : (s.conns c).holds = some node := by simp [Conn.holds, confirming]
        split
        · refine good.keep ⟨fun p there => ?_, nofun⟩ holds.symm
          cases there
          rfl
        · next failed => cases holds.symm.trans (orderly (by simpa using failed))
    · next more follow replying =>
        cases ok with
        | true => exact good.goPlain (by rw [replying]; rfl) (Conn.settle_plain more follow)
        | false =>
          have free := orderly rfl
          exact good.goto (free ▸ rfl) fun _ => by simpa [Conn.holds, replying] using free
    · exact good
  | follow c turn =>
    simp only [Service.step]
    split
    · next following =>
        split
        · exact good.goPlain (by rw [following]; rfl) rfl
        · exact good
    · exact good
  | pump c turn =>
    simp only [Service.step]
    split
    · next p there =>
        split
        · exact good.keep ⟨nofun, (good.fine c).between⟩ rfl
        · exact good
    · exact good
  | server nodes => exact ⟨good.fine, good.alone, good.marked⟩

theorem Good.refusalKeeps (good : s.Good) (e : Event) (orderly : s.Orderly e) : s.RefusalKeeps e := by
  refine ⟨fun c held refused => ?_, fun c unmark => ?_⟩
  · cases e with
    | lookup c' granted logged =>
      simp only [refusal] at refused
      split at refused
      · next node held' asking =>
          split at refused
          · cases refused
          · next absent =>
              cases refused
              have empty : (s.conns c).attach = none := (good.fine c).between (by rw [asking]; rfl)
              rw [orderly node held asking (by simpa using absent)]
              simp only [Service.step, asking, absent]
              exact ⟨by simp [put_conns, Conn.holds, empty], rfl⟩
      · cases refused
    | mark c' granted =>
      simp only [refusal] at refused
      split at refused
      · next node held' marking =>
          have empty : (s.conns c').attach = none := (good.fine c').between (by rw [marking]; rfl)
          have calm := orderly node held' marking
          cases may : granted && (s.nodes node).getD false with
          | true => simp [mark_of_may may] at refused
          | false =>
            rw [mark_of_may_not may] at refused
            cases refused
            rw [may, if_neg Bool.false_ne_true] at calm
            simp only [Service.step, marking, mark_of_may_not may]
            exact ⟨by simp [put_conns, Conn.holds, empty, calm], rfl⟩
      · cases refused
    | _ => cases refused
  · subst unmark
    simp only [Service.step]
    split
    · next node unmarking => exact Finset.erase_eq_of_notMem (orderly node unmarking)
    · rfl

/-- **Attaching, where nothing goes wrong.**  In any run in which no loop meets an error while
it holds an attach, no node is attached to twice, and no request is refused to a client that
is attached or about a node another client holds: the marks are what live connections hold,
every node has at most one pump, a connection that has returned has left no pump and no
attach, and a refused request has changed nothing. -/
theorem attach_lives (nodes : NodeId → Option Bool) (events : List Event)
    (orderly : Along step Orderly (fresh nodes) events) :
    (events.foldl step (fresh nodes)).Lawful ∧ Along step RefusalKeeps (fresh nodes) events :=
  ⟨(orderly.keeps (fun _ e met good => Good.step good e met) (good_fresh nodes)).lawful,
    orderly.imp (fun _ e met good => Good.step good e met) (fun _ e good met => good.refusalKeeps e met)
      (good_fresh nodes)⟩

/-- A client attaches, another to another node; the first reads, detaches and leaves. -/
theorem attach_lives_two :
    let nodes : NodeId → Option Bool := fun node => if node < 3 then some true else none
    let attach (c : ConnId) (node : NodeId) : List Event :=
      [.message c (.attach node), .lookup c true false, .mark c true, .send c true]
    let events := attach 0 1 ++ attach 1 2 ++
      [.pump 0 .wrote, .message 0 .detach, .pump 0 .idle, .joined 0, .send 0 true, .eof 0]
    (events.foldl step (fresh nodes)).Lawful ∧ Along step RefusalKeeps (fresh nodes) events :=
  attach_lives _ _
    ⟨trivial, fun _ _ asking _ => (Pc.asking.inj asking).2.symm, fun _ _ marking => by cases marking; decide, nofun,
      trivial, fun _ _ asking _ => (Pc.asking.inj asking).2.symm, fun _ _ marking => by cases marking; decide, nofun,
      trivial, trivial, trivial, trivial, nofun, trivial, trivial⟩

/-- A client attaches to a terminal, and its next line is malformed: its loop has returned,
its pump drains the terminal on, and the node stays marked for nobody. -/
theorem malformed_leaks :
    ¬ (([.message 0 (.attach 1), .lookup 0 true false, .mark 0 true, .send 0 true, .malformed 0] : List Event).foldl
      step (fresh fun _ => some true)).Lawful := by
  intro lawful
  exact absurd (lawful.returned 0 (by decide)) (by decide)

end Service
end Wk.Api
