/-
# Wk.Provider.Handles -- handles and the incarnations that returned them

A handle means something only to the serve loop that returned it.  A descriptor behind a
mount remembers the generation the connection had before its entry was opened, and every
operation on it first compares that with the connection's (`check`); the operation enters
the queue later, under the lock again (`enter`).  The release of an entry that was to be a
directory and is not is sent without a comparison.

An event of `Remote.step` is one section of the connection's lock, or what a consumer does
between two of them.  History is kept of the incarnation that returned each handle and of
the one each request was handed to: they agree as long as no serve loop attaches while an
operation on an older handle is still on its way to the queue (`Calm`).
-/
import Wk.Provider.Conn
import Wk.Library.Table
import Wk.Vfs.Guest

namespace Wk.Provider

open Wk.Library
open Wk.Vfs (RemoteDesc OpenFlags fileReadChunk)

set_option autoImplicit false

/-- An open that crosses the mount. -/
structure OpenRequest where
  readonly : Bool
  path : String
  flags : OpenFlags
  deriving DecidableEq

def OpenRequest.op (request : OpenRequest) : FsOp :=
  .open request.path request.flags.create request.flags.truncate request.flags.exclusive

/-- Whether an open gives up the entry a reply brings: it was to be a directory. -/
def OpenRequest.refuses (request : OpenRequest) : FsResult → Bool
  | .ok (.opened o) => request.flags.directory && o.kind ≠ .dir
  | _ => false

/-- What is done with an open file. -/
inductive Access where
  | read (offset len : Nat)
  | write (offset : Nat) (data : Bytes)
  | setSize (size : Nat)
  deriving DecidableEq

def Access.op (handle : Nat) : Access → FsOp
  | .read offset len => .read handle offset (min len fileReadChunk)
  | .write offset data => .write handle offset data
  | .setSize size => .setSize handle size

def Access.changes : Access → Bool
  | .read .. => false
  | _ => true

/-- What keeps a remote entry open: its descriptor, or a stream made from that. -/
inductive Hold where
  | descriptor | input | output
  deriving DecidableEq

def Hold.allows : Hold → Access → Bool
  | .descriptor, _ => true
  | .input, .read .. => true
  | .output, .write .. => true
  | _, _ => false

structure Holder where
  remote : RemoteDesc
  hold : Hold
  /-- History: the incarnation that returned the handle. -/
  minted : Nat

/-- What a consumer is in the middle of. -/
inductive Task where
  /-- An open that has read the generation. -/
  | opening (request : OpenRequest) (generation : Nat)
  /-- An open that waits for its reply. -/
  | awaiting (request : OpenRequest) (generation id : Nat)
  /-- An operation on a handle, on its way to the queue, and whether anyone waits for it. -/
  | forwarding (op : FsOp) (waits : Bool) (minted : Nat)
  | waiting (id : Nat)

/-- A request handed to a serve loop. -/
structure Handed where
  op : FsOp
  /-- The incarnation that returned the handle it carries. -/
  origin : Option Nat
  /-- The incarnation it was handed to. -/
  generation : Nat

/-- A connection and what its consumers have open behind it. -/
structure Remote where
  conn : NodeId
  inner : Inner
  holders : Table Nat Holder
  tasks : Table Nat Task
  /-- The filled slots, with the incarnation that filled each. -/
  slots : Table Nat (FsResult × Nat)
  /-- History: the incarnation that returned the handle a request carries. -/
  origins : Table Nat Nat
  handed : List Handed

inductive Remote.Event where
  | open (task : Nat) (request : OpenRequest)
  /-- An operation on an open file compares the generations. -/
  | check (task holder : Nat) (access : Access)
  | stream (holder stream : Nat) (writes : Bool)
  | drop (task holder : Nat)
  /-- A request enters the queue. -/
  | enter (task : Nat)
  /-- A consumer finds its reply; a new descriptor is `descriptor`. -/
  | take (task descriptor : Nat)
  | timeout (task : Nat)
  /-- An operation that carries no handle. -/
  | plain (op : FsOp)
  | claim
  | reply (id : Nat) (result : FsResult)
  | attach
  | detach
  deriving DecidableEq

/-- Whether the serve loop that returned a descriptor's handle is the current one. -/
def Inner.live (g : Inner) (r : RemoteDesc) : Bool := g.generation = r.generation

namespace Remote

/-- A connection that was never served. -/
def new (conn : NodeId) : Remote := ⟨conn, .new, ∅, ∅, ∅, ∅, []⟩

/-- A consumer starts on a task. -/
def start (c : Remote) (task : Nat) (t : Task) : Option Remote :=
  if task ∈ c.tasks then none else some { c with tasks := c.tasks.insert task t }

/-- Note where the handle of the request comes from that `inner` has one more of. -/
def note (c : Remote) (inner : Inner) (minted : Nat) : Table Nat Nat :=
  if inner.nextId = c.inner.nextId then c.origins else c.origins.insert c.inner.nextId minted

/-- Read, write or resize through what holds an entry open, up to the comparison. -/
def check (c : Remote) (task holder : Nat) (access : Access) : Option Remote :=
  match c.holders.lookup holder with
  | none => none
  | some h =>
    if !h.hold.allows access then none
    else if access.changes && h.remote.readonly then some c
    else
      match h.remote.handle with
      | none => some c
      | some handle =>
        if c.inner.live h.remote then
          c.start task (.forwarding (access.op handle) true h.minted)
        else some c

/-- Make a stream from a descriptor. -/
def stream (c : Remote) (holder stream : Nat) (writes : Bool) : Option Remote :=
  match c.holders.lookup holder with
  | none => none
  | some h =>
    if h.hold ≠ .descriptor || stream ∈ c.holders then none
    else if writes && h.remote.readonly then some c
    else if h.remote.handle.isSome && c.inner.live h.remote then
      some { c with
        holders := c.holders.insert stream { h with hold := if writes then .output else .input } }
    else some c

/-- Drop a descriptor, up to the comparison, or a stream. -/
def drop (c : Remote) (task holder : Nat) : Option Remote :=
  match c.holders.lookup holder with
  | none => none
  | some h =>
    let closed := { c with holders := c.holders.erase holder }
    match h.hold, h.remote.handle with
    | .descriptor, some handle =>
      if c.inner.live h.remote then
        closed.start task (.forwarding (.release handle) false h.minted)
      else some closed
    | _, _ => some closed

def enter (c : Remote) (task : Nat) : Option Remote :=
  match c.tasks.lookup task with
  | some (.opening request generation) =>
    match c.inner.call request.op with
    | (_, .error _) => some { c with tasks := c.tasks.erase task }
    | (inner, .ok id) =>
      some { c with
        inner := inner, tasks := c.tasks.insert task (.awaiting request generation id) }
  | some (.forwarding op true minted) =>
    match c.inner.call op with
    | (_, .error _) => some { c with tasks := c.tasks.erase task }
    | (inner, .ok id) =>
      some { c with
        inner := inner, tasks := c.tasks.insert task (.waiting id), origins := c.note inner minted }
  | some (.forwarding op false minted) =>
    some { c with
      inner := c.inner.cast op
      tasks := c.tasks.erase task
      origins := c.note (c.inner.cast op) minted }
  | _ => none

/-- What an open does with its reply. -/
def opened (c : Remote) (task descriptor : Nat) (request : OpenRequest) (generation : Nat)
    (result : FsResult) (minted : Nat) : Option Remote :=
  match result with
  | .ok (.opened o) =>
    if request.refuses result then
      some { c with tasks := c.tasks.insert task (.forwarding (.release o.handle) false minted) }
    else if descriptor ∈ c.holders then none
    else
      let remote : RemoteDesc :=
        ⟨c.conn, generation, request.path, some o.handle, o.kind, request.readonly⟩
      some { c with
        holders := c.holders.insert descriptor ⟨remote, .descriptor, minted⟩
        tasks := c.tasks.erase task }
  | _ => some { c with tasks := c.tasks.erase task }

def take (c : Remote) (task descriptor : Nat) : Option Remote :=
  match c.tasks.lookup task with
  | some (.awaiting request generation id) =>
    match c.slots.lookup id with
    | some (result, minted) =>
      { c with slots := c.slots.erase id }.opened task descriptor request generation result minted
    | none => none
  | some (.waiting id) =>
    if id ∈ c.slots then
      some { c with slots := c.slots.erase id, tasks := c.tasks.erase task }
    else none
  | _ => none

def timeout (c : Remote) (task : Nat) : Option Remote :=
  match c.tasks.lookup task with
  | some (.awaiting _ _ id) | some (.waiting id) =>
    some { c with inner := c.inner.withdraw id, tasks := c.tasks.erase task }
  | _ => none

def claim (c : Remote) : Option Remote :=
  match c.inner.nextRequest with
  | none => none
  | some (request, inner) =>
    some { c with
      inner := inner
      handed := ⟨request.2, c.origins.lookup request.1, inner.generation⟩ :: c.handed }

def reply (c : Remote) (id : Nat) (result : FsResult) : Remote :=
  { c with
    inner := (c.inner.reply id).1
    slots :=
      if (c.inner.reply id).2 then c.slots.insert id (result, c.inner.generation) else c.slots }

/-- Fail every call in flight. -/
def detach (c : Remote) : Remote :=
  { c with
    inner := c.inner.endServing.1
    slots := c.inner.endServing.2.foldl
      (fun slots id => slots.insert id (.error .dead, c.inner.generation)) c.slots }

/-- What an event does, unless there is nothing for it to do. -/
def step (c : Remote) : Event → Option Remote
  | .open task request =>
    if request.readonly && (request.flags.create || request.flags.truncate) then some c
    else c.start task (.opening request c.inner.generation)
  | .check task holder access => c.check task holder access
  | .stream holder stream writes => c.stream holder stream writes
  | .drop task holder => c.drop task holder
  | .enter task => c.enter task
  | .take task descriptor => c.take task descriptor
  | .timeout task => c.timeout task
  | .plain op => if op.handle?.isSome then none else some { c with inner := (c.inner.call op).1 }
  | .claim => c.claim
  | .reply id result => some (c.reply id result)
  | .attach => some { c with inner := c.inner.beginServing }
  | .detach => some c.detach

end Remote

/-! ## What every order of events keeps -/

/-- How far a task is from handing a handle to the wrong incarnation: an open's generation
is no later than its reply, and while a serve loop is attached what is on its way to the
queue belongs to it. -/
def Task.Sound (slots : Table Nat (FsResult × Nat)) (g : Inner) : Task → Prop
  | .opening _ generation => generation ≤ g.generation
  | .awaiting request generation id =>
    generation ≤ g.generation ∧
      ∀ result minted, slots.lookup id = some (result, minted) →
        generation ≤ minted ∧ minted ≤ g.generation ∧
          (g.serving = true → request.refuses result = true → minted = g.generation)
  | .forwarding op _ minted =>
    op.handle?.isSome = true ∧ (g.serving = true → minted = g.generation)
  | .waiting _ => True

/-- A task that would hand a handle to a serve loop attaching now. -/
def Task.Late (slots : Table Nat (FsResult × Nat)) (g : Inner) : Task → Prop
  | .awaiting request _ id =>
    ∃ result minted, slots.lookup id = some (result, minted) ∧
      request.refuses result = true ∧ minted ≠ g.generation
  | .forwarding _ _ minted => minted ≠ g.generation
  | _ => False

section Task

variable {slots slots' : Table Nat (FsResult × Nat)} {g g' : Inner} {task : Task}

/-- New slots are filled by the current incarnation. -/
theorem Task.Sound.mono (sound : task.Sound slots g) (up : g.generation ≤ g'.generation)
    (same : g'.serving = true → g.serving = true ∧ g'.generation = g.generation)
    (old : ∀ {id result minted}, slots'.lookup id = some (result, minted) →
      slots.lookup id = some (result, minted) ∨ minted = g.generation) : task.Sound slots' g' := by
  cases task with
  | opening request generation => exact le_trans sound up
  | awaiting request generation id =>
    refine ⟨sound.1.trans up, fun result minted filled => ?_⟩
    rcases old filled with before | rfl
    · obtain ⟨after, notLater, current⟩ := sound.2 result minted before
      refine ⟨after, notLater.trans up, fun serving refuses => ?_⟩
      rw [(same serving).2]
      exact current (same serving).1 refuses
    · exact ⟨sound.1, up, fun serving _ => (same serving).2.symm⟩
  | forwarding op waits minted =>
    refine ⟨sound.1, fun serving => ?_⟩
    rw [(same serving).2]
    exact sound.2 (same serving).1
  | waiting id => trivial

/-- Nothing is late while a serve loop is attached. -/
theorem Task.Sound.not_late (sound : task.Sound slots g) (serving : g.serving = true) :
    ¬ task.Late slots g := by
  intro late
  cases task with
  | awaiting request generation id =>
    obtain ⟨result, minted, filled, refuses, older⟩ := late
    exact older ((sound.2 result minted filled).2.2 serving refuses)
  | forwarding op waits minted => exact late (sound.2 serving)
  | _ => exact late

/-- A serve loop may attach when nothing is late. -/
theorem Task.Sound.attach (sound : task.Sound slots g) (inTime : ¬ task.Late slots g) :
    task.Sound slots g.beginServing := by
  cases task with
  | opening request generation => exact sound
  | awaiting request generation id =>
    refine ⟨sound.1, fun result minted filled => ?_⟩
    obtain ⟨after, notLater, _⟩ := sound.2 result minted filled
    refine ⟨after, notLater, fun _ refuses => ?_⟩
    by_contra older
    exact inTime ⟨result, minted, filled, refuses, older⟩
  | forwarding op waits minted =>
    refine ⟨sound.1, fun _ => ?_⟩
    by_contra older
    exact inTime older
  | waiting id => trivial

end Task

namespace Remote

structure Sound (c : Remote) : Prop where
  orderly : c.inner.Orderly
  /-- The generation a descriptor remembers was read before its handle was returned. -/
  holders : ∀ {key holder}, c.holders.lookup key = some holder →
    holder.remote.generation ≤ holder.minted ∧ holder.minted ≤ c.inner.generation
  tasks : ∀ {key task}, c.tasks.lookup key = some task → task.Sound c.slots c.inner
  filled : ∀ {id slot}, c.slots.lookup id = some slot → id < c.inner.nextId
  /-- What is queued belongs to the incarnation that will claim it. -/
  queued : ∀ {request}, request ∈ c.inner.queue → request.2.handle?.isSome = true →
    c.origins.lookup request.1 = some c.inner.generation
  handed : ∀ {handed}, handed ∈ c.handed → handed.op.handle?.isSome = true →
    handed.origin = some handed.generation

variable {c c' : Remote}

theorem Sound.new (conn : NodeId) : (new conn).Sound where
  orderly := .new
  holders found := by cases found
  tasks found := by cases found
  filled found := by cases found
  queued member := by cases member
  handed member := by cases member

/-- A consumer goes on to another task. -/
theorem Sound.put (sound : c.Sound) {key : Nat} {task : Task} (fits : task.Sound c.slots c.inner) :
    ({ c with tasks := c.tasks.insert key task } : Remote).Sound :=
  { sound with
    tasks := fun found => by
      rw [Table.lookup_insert_eq] at found
      split at found
      · cases found
        exact fits
      · exact sound.tasks found }

/-- A consumer is done with its task. -/
theorem Sound.finish (sound : c.Sound) (key : Nat) :
    ({ c with tasks := c.tasks.erase key } : Remote).Sound :=
  { sound with
    tasks := fun found => by
      rw [Table.lookup_erase_eq] at found
      split at found
      · cases found
      · exact sound.tasks found }

theorem Sound.start (sound : c.Sound) {key : Nat} {task : Task}
    (started : c.start key task = some c') (fits : task.Sound c.slots c.inner) : c'.Sound := by
  unfold Remote.start at started
  split at started <;> cases started
  exact sound.put fits

/-- Something more keeps an entry open. -/
theorem Sound.hold (sound : c.Sound) {key : Nat} {holder : Holder}
    (before : holder.remote.generation ≤ holder.minted)
    (notLater : holder.minted ≤ c.inner.generation) :
    ({ c with holders := c.holders.insert key holder } : Remote).Sound :=
  { sound with
    holders := fun found => by
      rw [Table.lookup_insert_eq] at found
      split at found
      · cases found
        exact ⟨before, notLater⟩
      · exact sound.holders found }

/-- Something less keeps an entry open. -/
theorem Sound.letGo (sound : c.Sound) (key : Nat) :
    ({ c with holders := c.holders.erase key } : Remote).Sound :=
  { sound with
    holders := fun found => by
      rw [Table.lookup_erase_eq] at found
      split at found
      · cases found
      · exact sound.holders found }

/-- A slot is emptied. -/
theorem Sound.empty (sound : c.Sound) (id : Nat) :
    ({ c with slots := c.slots.erase id } : Remote).Sound := by
  have fewer : ∀ {other : Nat} {slot : FsResult × Nat}, (c.slots.erase id).lookup other = some slot →
      c.slots.lookup other = some slot := by
    intro other slot found
    rw [Table.lookup_erase_eq] at found
    split at found
    · cases found
    · exact found
  exact { sound with
    tasks := fun found =>
      (sound.tasks found).mono le_rfl (fun serving => ⟨serving, rfl⟩) fun filled => .inl (fewer filled)
    filled := fun found => sound.filled (fewer found) }

/-- Requests are taken from the queue, or no longer owed a reply. -/
theorem Sound.relax (sound : c.Sound) {inner : Inner} (orderly : inner.Orderly)
    (nextId : inner.nextId = c.inner.nextId) (generation : inner.generation = c.inner.generation)
    (serving : inner.serving = c.inner.serving) (queue : inner.queue ⊆ c.inner.queue) :
    ({ c with inner := inner } : Remote).Sound :=
  { orderly
    holders := fun found => generation ▸ sound.holders found
    tasks := fun found =>
      (sound.tasks found).mono generation.ge (fun serves => ⟨serving ▸ serves, generation⟩) .inl
    filled := fun found => nextId ▸ sound.filled found
    queued := fun member carries => generation ▸ sound.queued (queue member) carries
    handed := sound.handed }

/-- One more request is queued: what it carries belongs to the current incarnation. -/
theorem Sound.enqueue (sound : c.Sound) (origins : Table Nat Nat) {op : FsOp} {inner : Inner}
    (orderly : inner.Orderly) (queue : inner.queue = c.inner.queue ++ [(c.inner.nextId, op)])
    (nextId : inner.nextId = c.inner.nextId + 1) (generation : inner.generation = c.inner.generation)
    (serving : inner.serving = c.inner.serving)
    (others : ∀ {id}, id < c.inner.nextId → origins.lookup id = c.origins.lookup id)
    (origin : op.handle?.isSome = true → origins.lookup c.inner.nextId = some c.inner.generation) :
    ({ c with inner := inner, origins := origins } : Remote).Sound where
  orderly := orderly
  holders found := generation ▸ sound.holders found
  tasks found :=
    (sound.tasks found).mono generation.ge (fun serves => ⟨serving ▸ serves, generation⟩) .inl
  filled found := nextId ▸ (sound.filled found).trans (Nat.lt_succ_self _)
  queued {request} member carries := by
    dsimp only at member ⊢
    rw [generation]
    rw [queue] at member
    rcases List.mem_append.1 member with old | new
    · rw [others (sound.orderly.queued old)]
      exact sound.queued old carries
    · rw [List.mem_singleton.1 new] at carries ⊢
      exact origin carries
  handed := sound.handed

theorem note_same (c : Remote) (minted : Nat) : c.note c.inner minted = c.origins :=
  if_pos rfl

theorem Sound.check (sound : c.Sound) {task holder : Nat} {access : Access}
    (happens : c.check task holder access = some c') : c'.Sound := by
  unfold Remote.check at happens
  split at happens
  · cases happens
  · next h found =>
      split at happens
      · cases happens
      · split at happens
        · cases happens
          exact sound
        · split at happens
          · cases happens
            exact sound
          · next handle _ =>
              split at happens
              · next live =>
                  refine sound.start happens ⟨by cases access <;> rfl, fun _ => ?_⟩
                  have current : c.inner.generation = h.remote.generation := by
                    simpa [Inner.live] using live
                  have bounds := sound.holders found
                  omega
              · cases happens
                exact sound

theorem Sound.stream (sound : c.Sound) {holder stream : Nat} {writes : Bool}
    (happens : c.stream holder stream writes = some c') : c'.Sound := by
  unfold Remote.stream at happens
  split at happens
  · cases happens
  · next h found =>
      split at happens
      · cases happens
      · split at happens
        · cases happens
          exact sound
        · split at happens <;> cases happens
          · exact sound.hold (sound.holders found).1 (sound.holders found).2
          · exact sound

theorem Sound.drop (sound : c.Sound) {task holder : Nat}
    (happens : c.drop task holder = some c') : c'.Sound := by
  unfold Remote.drop at happens
  split at happens
  · cases happens
  · next h found =>
      dsimp only at happens
      split at happens
      · next handle _ _ =>
          split at happens
          · next live =>
              refine (sound.letGo holder).start happens ⟨rfl, fun _ => ?_⟩
              have current : c.inner.generation = h.remote.generation := by
                simpa [Inner.live] using live
              have bounds := sound.holders found
              show h.minted = c.inner.generation
              omega
          · cases happens
            exact sound.letGo holder
      · cases happens
        exact sound.letGo holder

/-- The origin of the request that was just queued is noted. -/
theorem note_new {inner : Inner} {minted : Nat} (nextId : inner.nextId = c.inner.nextId + 1) :
    c.note inner minted = c.origins.insert c.inner.nextId minted :=
  if_neg (by omega)

theorem Sound.enter (sound : c.Sound) {task : Nat} (happens : c.enter task = some c') :
    c'.Sound := by
  unfold Remote.enter at happens
  split at happens
  · next request generation found =>
      have orderly := sound.orderly.call request.op
      rcases c.inner.call_cases request.op with ⟨e, refused, _⟩ | ⟨_, accepted⟩
      · rw [refused] at happens
        cases happens
        exact sound.finish task
      · rw [accepted] at happens orderly
        cases happens
        have grown := sound.enqueue c.origins orderly rfl rfl rfl rfl (fun _ => rfl) nofun
        refine grown.put ⟨sound.tasks found, fun result minted filled => ?_⟩
        exact absurd (sound.filled filled) (lt_irrefl _)
  · next op minted found =>
      obtain ⟨_, current⟩ := sound.tasks found
      have orderly := sound.orderly.call op
      rcases c.inner.call_cases op with ⟨e, refused, _⟩ | ⟨serving, accepted⟩
      · rw [refused] at happens
        cases happens
        exact sound.finish task
      · rw [accepted] at happens orderly
        cases happens
        rw [note_new rfl, current serving]
        refine Sound.put (sound.enqueue _ orderly rfl rfl rfl rfl (fun older => ?_) fun _ => ?_) trivial
        · exact AList.lookup_insert_ne older.ne
        · exact AList.lookup_insert _
  · next op minted found =>
      obtain ⟨_, current⟩ := sound.tasks found
      have orderly := sound.orderly.cast op
      cases happens
      rcases c.inner.cast_cases op with dropped | ⟨serving, accepted⟩
      · rw [dropped, note_same]
        exact sound.finish task
      · rw [accepted] at orderly ⊢
        rw [note_new rfl, current serving]
        refine Sound.finish (sound.enqueue _ orderly rfl rfl rfl rfl (fun older => ?_) fun _ => ?_) task
        · exact AList.lookup_insert_ne older.ne
        · exact AList.lookup_insert _
  · cases happens

theorem Sound.take (sound : c.Sound) {task descriptor : Nat}
    (happens : c.take task descriptor = some c') : c'.Sound := by
  unfold Remote.take at happens
  split at happens
  · next request generation id found =>
      split at happens
      · next result minted filled =>
          obtain ⟨before, notLater, current⟩ := (sound.tasks found).2 result minted filled
          have emptied := sound.empty id
          unfold Remote.opened at happens
          split at happens
          · next o =>
              split at happens
              · next refuses =>
                  cases happens
                  exact emptied.put ⟨rfl, fun serving => current serving refuses⟩
              · split at happens <;> cases happens
                exact (emptied.hold before notLater).finish task
          · cases happens
            exact emptied.finish task
      · cases happens
  · next id _ =>
      split at happens <;> cases happens
      exact (sound.empty id).finish task
  · cases happens

theorem Sound.timeout (sound : c.Sound) {task : Nat} (happens : c.timeout task = some c') :
    c'.Sound := by
  have withdrawn : ∀ id, ({ c with inner := c.inner.withdraw id } : Remote).Sound := fun id =>
    sound.relax (sound.orderly.withdraw id) rfl rfl rfl (List.filter_subset_self _)
  unfold Remote.timeout at happens
  split at happens <;> cases happens <;> exact (withdrawn _).finish task

theorem Sound.claim (sound : c.Sound) (happens : c.claim = some c') : c'.Sound := by
  unfold Remote.claim at happens
  split at happens
  · cases happens
  · next request inner claimed =>
      cases happens
      have orderly := sound.orderly.nextRequest claimed
      unfold Inner.nextRequest at claimed
      split at claimed
      · cases claimed
      · next first rest queue =>
          cases claimed
          have relaxed := sound.relax orderly rfl rfl rfl (queue ▸ List.subset_cons_self _ _)
          refine { relaxed with handed := fun member carries => ?_ }
          rcases List.mem_cons.1 member with rfl | old
          · exact sound.queued (queue ▸ List.mem_cons_self ..) carries
          · exact sound.handed old carries

theorem Sound.reply (sound : c.Sound) (id : Nat) (result : FsResult) : (c.reply id result).Sound := by
  have relaxed := sound.relax (sound.orderly.reply id) rfl rfl rfl (List.Subset.refl _)
  have slots : ∀ {other slot}, (c.reply id result).slots.lookup other = some slot →
      c.slots.lookup other = some slot ∨ other ∈ c.inner.outstanding ∧
        slot = (result, c.inner.generation) := by
    intro other slot found
    unfold Remote.reply at found
    dsimp only at found
    split at found
    · next owed =>
        rw [Table.lookup_insert_eq] at found
        split at found
        · next here =>
            cases found
            exact .inr ⟨here ▸ by simpa [Inner.reply] using owed, rfl⟩
        · exact .inl found
    · exact .inl found
  refine { relaxed with tasks := fun found => ?_, filled := fun found => ?_ }
  · refine (sound.tasks found).mono le_rfl (fun serving => ⟨serving, rfl⟩) fun filled => ?_
    refine (slots filled).imp_right ?_
    rintro ⟨_, same⟩
    cases same
    rfl
  · rcases slots found with old | ⟨owed, _⟩
    · exact sound.filled old
    · exact sound.orderly.owed owed

/-- A slot after a detach was filled before, or is failed by it. -/
theorem lookup_failed {failure : FsResult × Nat} {ids : List Nat} {slots : Table Nat (FsResult × Nat)}
    {id : Nat} {slot : FsResult × Nat}
    (found : (ids.foldl (fun slots id => slots.insert id failure) slots).lookup id = some slot) :
    slots.lookup id = some slot ∨ id ∈ ids ∧ slot = failure := by
  induction ids generalizing slots with
  | nil => exact .inl found
  | cons first rest ih =>
    rcases ih found with here | ⟨member, same⟩
    · rw [Table.lookup_insert_eq] at here
      split at here
      · next same =>
          cases here
          exact .inr ⟨same ▸ List.mem_cons_self .., rfl⟩
      · exact .inl here
    · exact .inr ⟨List.mem_cons_of_mem _ member, same⟩

theorem Sound.detach (sound : c.Sound) : c.detach.Sound where
  orderly := .endServing c.inner
  holders found := by
    obtain ⟨before, notLater⟩ := sound.holders found
    exact ⟨before, notLater.trans (Nat.le_succ _)⟩
  tasks found := by
    refine (sound.tasks found).mono (Nat.le_succ _) (fun serving => by cases serving) fun filled => ?_
    refine (lookup_failed filled).imp_right ?_
    rintro ⟨_, same⟩
    cases same
    rfl
  filled found := by
    rcases lookup_failed found with old | ⟨owed, _⟩
    · exact sound.filled old
    · exact sound.orderly.owed owed
  queued member := by cases member
  handed := sound.handed

/-- No serve loop attaches while an operation on the handle of an earlier one, already
compared, has still to enter the queue, nor while an open has still to give up the entry
an earlier one brought. -/
def Calm (c : Remote) : Event → Prop
  | .attach => ∀ key task, c.tasks.lookup key = some task → ¬ task.Late c.slots c.inner
  | _ => True

/-- **No calm event brings a handle into a later incarnation's queue.** -/
theorem step_sound {event : Event} (calm : c.Calm event) (happens : c.step event = some c')
    (sound : c.Sound) : c'.Sound := by
  cases event with
  | «open» task request =>
    simp only [step] at happens
    split at happens
    · cases happens
      exact sound
    · exact sound.start happens (le_refl c.inner.generation)
  | check task holder access => exact sound.check happens
  | stream holder stream writes => exact sound.stream happens
  | drop task holder => exact sound.drop happens
  | enter task => exact sound.enter happens
  | take task descriptor => exact sound.take happens
  | timeout task => exact sound.timeout happens
  | plain op =>
    simp only [step] at happens
    split at happens <;> cases happens
    next bare =>
      have orderly := sound.orderly.call op
      rcases c.inner.call_cases op with ⟨e, refused, _⟩ | ⟨_, accepted⟩
      · rw [refused]
        exact sound
      · rw [accepted] at orderly ⊢
        exact sound.enqueue _ orderly rfl rfl rfl rfl (fun _ => rfl) fun carries => absurd carries bare
  | claim => exact sound.claim happens
  | reply id result =>
    cases happens
    exact sound.reply id result
  | attach =>
    cases happens
    exact { sound with
      orderly := sound.orderly.beginServing
      tasks := fun found => (sound.tasks found).attach (calm _ _ found) }
  | detach =>
    cases happens
    exact sound.detach

/-- **Handles stay with their incarnation.**  Whatever is opened, read, written, resized
and dropped while serve loops detach and attach in calm moments, a request that carries a
handle is handed to the incarnation that returned it. -/
theorem handles_stay (conn : NodeId) {events : List Event}
    (ran : Scheduled step Calm (new conn) events c) :
    ∀ handed ∈ c.handed, handed.op.handle?.isSome = true →
      handed.origin = some handed.generation := by
  have sound : c.Sound :=
    ran.keeps (fun _ _ _ calm happens before => step_sound calm happens before) (.new conn)
  exact fun handed member carries => sound.handed member carries

/-- A file opened and read by one incarnation. -/
theorem handles_stay_read : ∃ c : Remote, (⟨.read 7 0 4, some 0, 0⟩ : Handed) ∈ c.handed ∧
    ∀ handed ∈ c.handed, handed.op.handle?.isSome = true →
      handed.origin = some handed.generation := by
  have ran : Scheduled step Calm (new 5)
      [.attach, .open 0 ⟨false, "f", {}⟩, .enter 0, .claim, .reply 1 (.ok (.opened ⟨7, .file, 4⟩)),
        .take 0 0, .check 0 0 (.read 0 4), .enter 0, .claim] _ :=
    .cons (fun _ _ found => by cases found) rfl <| .cons trivial rfl <| .cons trivial rfl <|
      .cons trivial rfl <| .cons trivial rfl <| .cons trivial rfl <| .cons trivial rfl <|
      .cons trivial rfl <| .cons trivial rfl (.nil _)
  exact ⟨_, List.mem_cons_self .., handles_stay 5 ran⟩

/-! ## A serve loop that attaches too early -/

/-- What is on its way to the queue reaches the serve loop that is attached. -/
theorem forwarding_handed {key minted : Nat} {op : FsOp} {waits : Bool}
    (found : c.tasks.lookup key = some (.forwarding op waits minted))
    (serving : c.inner.serving = true) (queue : c.inner.queue = []) :
    ∃ c', perform step c [.enter key, .claim] = some c' ∧
      (⟨op, some minted, c.inner.generation⟩ : Handed) ∈ c'.handed := by
  have room : c.inner.queue.length < maxQueue := by
    rw [queue]
    exact Nat.zero_lt_succ _
  obtain ⟨c₁, entered, queued, origin, generation⟩ : ∃ c₁, c.enter key = some c₁ ∧
      c₁.inner.queue = [(c.inner.nextId, op)] ∧
      c₁.origins.lookup c.inner.nextId = some minted ∧
      c₁.inner.generation = c.inner.generation := by
    cases waits with
    | true =>
      refine ⟨_, by simp only [enter, found, Inner.call_of_room op serving room]; rfl, ?_, ?_, ?_⟩
      · simp [queue]
      · rw [note_new rfl]
        exact AList.lookup_insert _
      · rfl
    | false =>
      have accepted := Inner.cast_of_room op serving room
      refine ⟨_, by simp only [enter, found, accepted]; rfl, ?_, ?_, ?_⟩
      · simp [queue]
      · rw [note_new rfl]
        exact AList.lookup_insert _
      · rfl
  have claimed : c₁.claim = some { c₁ with
      inner := { c₁.inner with queue := [] }
      handed := ⟨op, some minted, c.inner.generation⟩ :: c₁.handed } := by
    simp [claim, Inner.nextRequest, queued, origin, generation]
  have performed : perform step c [.enter key, .claim] = c₁.claim := by
    simp [perform, step, entered]
  exact ⟨_, performed.trans claimed, List.mem_cons_self ..⟩

/-- A serve loop that attaches while a task is late can be handed an earlier one's handle. -/
theorem late_handed (sound : c.Sound) {key : Nat} {task : Task}
    (found : c.tasks.lookup key = some task) (late : task.Late c.slots c.inner) :
    ∃ later c', perform step c (.attach :: later) = some c' ∧
      ∃ handed ∈ c'.handed, ∃ minted, handed.origin = some minted ∧ handed.generation ≠ minted := by
  have stopped : c.inner.serving = false := by
    by_contra serving
    exact (sound.tasks found).not_late (by simpa using serving) late
  have queue : c.inner.queue = [] := (sound.orderly.idle stopped).1
  cases task with
  | opening request generation => exact late.elim
  | awaiting request generation id =>
    obtain ⟨result, minted, filled, refuses, older⟩ := late
    cases result with
    | error e => cases refuses
    | ok data =>
      cases data with
      | opened o =>
        let given : Remote := { c with
          inner := c.inner.beginServing
          slots := c.slots.erase id
          tasks := c.tasks.insert key (.forwarding (.release o.handle) false minted) }
        have taken : ({ c with inner := c.inner.beginServing } : Remote).take key 0 =
            some given := by
          simp only [take, found, filled, opened, refuses]
          rfl
        obtain ⟨c', performed, member⟩ :=
          forwarding_handed (c := given) (AList.lookup_insert _) rfl queue
        refine ⟨[.take key 0, .enter key, .claim], c', ?_, _, member, minted, rfl,
          fun same => older same.symm⟩
        rw [← performed]
        simp only [perform, step, taken, Option.bind_some]
      | _ => cases refuses
  | forwarding op waits minted =>
    obtain ⟨c', performed, member⟩ := forwarding_handed
      (c := { c with inner := c.inner.beginServing }) found rfl queue
    exact ⟨[.enter key, .claim], c', performed, _, member, minted, rfl, fun same => late same.symm⟩
  | waiting id => exact late.elim

/-- A read compared before a serve loop detached is on its way. -/
theorem late_handed_read : ∃ (c : Remote) (later : List Event) (c' : Remote), perform step c (.attach :: later) = some c' ∧
    ∃ handed ∈ c'.handed, ∃ minted, handed.origin = some minted ∧ handed.generation ≠ minted := by
  have ran : Scheduled step Calm (new 5)
      [.attach, .open 0 ⟨false, "f", {}⟩, .enter 0, .claim, .reply 1 (.ok (.opened ⟨7, .file, 4⟩)),
        .take 0 0, .check 0 0 (.read 0 4), .detach] _ :=
    .cons (fun _ _ found => by cases found) rfl <| .cons trivial rfl <| .cons trivial rfl <|
      .cons trivial rfl <| .cons trivial rfl <| .cons trivial rfl <| .cons trivial rfl <| .cons trivial rfl (.nil _)
  have sound := ran.keeps (fun _ _ _ calm happens before => step_sound calm happens before) (.new 5)
  exact ⟨_, @late_handed _ sound 0 _ rfl Nat.zero_ne_one⟩

/-- A file is read after a restart: the comparison was before it, the request is after it. -/
theorem restart_replays_handle : ∃ c, perform step (new 5)
      [.attach, .open 0 ⟨false, "f", {}⟩, .enter 0, .claim, .reply 1 (.ok (.opened ⟨7, .file, 4⟩)),
        .take 0 0, .check 0 0 (.read 0 4), .detach, .attach, .enter 0, .claim] = some c ∧
    ∃ handed ∈ c.handed, handed.op = .read 7 0 4 ∧ handed.origin = some 0 ∧ handed.generation = 1 :=
  ⟨_, rfl, _, List.mem_cons_self .., rfl, rfl, rfl⟩

end Remote

end Wk.Provider
