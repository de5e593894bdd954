/-
# Wk.Provider.Matching -- one result for every call

Consumers call, a provider claims and replies, serve loops attach and detach, each on a
thread of its own.  Two locks are taken: the connection's, whose sections are in
`Wk.Provider.Conn`, and one for each call's slot.  A caller past its deadline keeps its
slot locked while it waits for the connection, to withdraw its request; a detach keeps the
connection locked while it waits for every slot in flight, to fail its call.  An event of
`Conduit.step` is what a thread does between two such waits.

Whatever the order: no reply reaches another call, nothing is handed out twice, and a
conduit that is not served is empty.  That every call returns needs that the two waits
do not meet (`Calm`).
-/
import Wk.Provider.Conn
import Wk.Library.Table

namespace Wk.Provider

open Wk.Library

set_option autoImplicit false

/-- Where a thread that called is. -/
inductive Caller where
  /-- Waiting for its slot to be filled. -/
  | waiting (id : Nat)
  /-- Past its deadline, with its slot found empty and kept locked. -/
  | expired (id : Nat)
  /-- `call` has returned; `id` is the request's, if it was issued. -/
  | returned (id : Option Nat) (result : FsResult)

/-- The request a caller issued. -/
def Caller.issued : Caller → Option Nat
  | .waiting id | .expired id => some id
  | .returned id _ => id

/-- Whether a caller keeps the slot of `id` locked. -/
def Caller.locks (id : Nat) : Caller → Bool
  | .expired other => other = id
  | _ => false

/-- Whether a call has returned. -/
def Caller.back : Caller → Bool
  | .returned .. => true
  | _ => false

/-- How much a caller has still to do, left alone. -/
def Caller.work : Caller → Nat
  | .waiting _ => 2
  | .expired _ => 1
  | .returned .. => 0

/-- What a caller may have been told: the first answer to its own request, or that there
will be none. -/
def Caller.Fits (answers : Table Nat FsResult) (nextId : Nat) : Caller → Prop
  | .waiting id | .expired id => id < nextId
  | .returned (some id) result =>
    id < nextId ∧
      (answers.lookup id = some result ∨ result = .error .dead ∨ result = .error .timeout)
  | .returned none result => result = .error .dead ∨ result = .error .io

/-- The conduit with every thread that is on it. -/
structure Conduit where
  inner : Inner
  callers : Table Nat Caller
  /-- The slots that are filled. -/
  slots : Table Nat FsResult
  /-- Replies on their way from the connection to a slot. -/
  filling : List (Nat × FsResult)
  /-- The slots a detach has still to fail; it keeps the connection locked. -/
  draining : Option (List Nat)
  /-- History: the requests handed to the provider, latest first. -/
  handed : List (Nat × FsOp)
  /-- History: the first result replied for each request since it was issued. -/
  answers : Table Nat FsResult

inductive Event where
  | call (thread : Nat) (op : FsOp)
  | cast (op : FsOp)
  /-- The provider claims the next request. -/
  | claim
  | reply (id : Nat) (result : FsResult)
  /-- A reply reaches its slot. -/
  | fill (id : Nat)
  /-- A caller finds its slot filled. -/
  | take (thread : Nat)
  /-- A caller's deadline passes with its slot empty. -/
  | expire (thread : Nat)
  | withdraw (thread : Nat)
  | attach
  | detach
  /-- A detach fails one of the calls in flight. -/
  | fail (id : Nat)
  | detached
  deriving DecidableEq

/-- Whether an event is a step of something already under way. -/
def Event.inside : Event → Bool
  | .fill _ | .take _ | .expire _ | .withdraw _ | .fail _ | .detached => true
  | _ => false

namespace Conduit

/-- A conduit that was never served. -/
def new : Conduit := ⟨.new, ∅, ∅, [], none, [], ∅⟩

/-- No caller keeps the slot of `id` locked. -/
def slotFree (c : Conduit) (id : Nat) : Bool :=
  (Table.values c.callers).all fun caller => !caller.locks id

/-- Note a reply, if it is the first for an issued request. -/
def note (c : Conduit) (id : Nat) (result : FsResult) : Table Nat FsResult :=
  if id < c.inner.nextId && (c.answers.lookup id).isNone then c.answers.insert id result
  else c.answers

/-- What an event does, unless a lock it needs is taken or there is nothing for it to do. -/
def step (c : Conduit) : Event → Option Conduit
  | .call thread op =>
    if c.draining.isSome || thread ∈ c.callers then none
    else
      match c.inner.call op with
      | (_, .error e) => some { c with callers := c.callers.insert thread (.returned none (.error e)) }
      | (inner, .ok id) =>
        some { c with inner := inner, callers := c.callers.insert thread (.waiting id) }
  | .cast op => if c.draining.isSome then none else some { c with inner := c.inner.cast op }
  | .claim =>
    if c.draining.isSome then none
    else
      match c.inner.nextRequest with
      | none => none
      | some (request, inner) =>
        some { c with inner := inner, handed := request :: c.handed }
  | .reply id result =>
    if c.draining.isSome then none
    else
      some { c with
        inner := (c.inner.reply id).1
        filling := if (c.inner.reply id).2 then (id, result) :: c.filling else c.filling
        answers := c.note id result }
  | .fill id =>
    match c.filling.lookup id with
    | none => none
    | some result =>
      if c.slotFree id then
        some { c with
          slots := c.slots.insert id result
          filling := c.filling.filter fun pending => pending.1 ≠ id }
      else none
  | .take thread =>
    match c.callers.lookup thread with
    | some (.waiting id) =>
      match c.slots.lookup id with
      | some result =>
        some { c with
          callers := c.callers.insert thread (.returned (some id) result)
          slots := c.slots.erase id }
      | none => none
    | _ => none
  | .expire thread =>
    match c.callers.lookup thread with
    | some (.waiting id) =>
      if (c.slots.lookup id).isNone then
        some { c with callers := c.callers.insert thread (.expired id) }
      else none
    | _ => none
  | .withdraw thread =>
    if c.draining.isSome then none
    else
      match c.callers.lookup thread with
      | some (.expired id) =>
        some { c with
          inner := c.inner.withdraw id
          callers := c.callers.insert thread (.returned (some id) (.error .timeout)) }
      | _ => none
  | .attach => if c.draining.isSome then none else some { c with inner := c.inner.beginServing }
  | .detach =>
    if c.draining.isSome then none
    else some { c with inner := c.inner.endServing.1, draining := some c.inner.endServing.2 }
  | .fail id =>
    match c.draining with
    | none => none
    | some ids =>
      if id ∈ ids && c.slotFree id then
        some { c with
          slots := c.slots.insert id (.error .dead)
          draining := some (ids.erase id) }
      else none
  | .detached =>
    match c.draining with
    | some [] => some { c with draining := none }
    | _ => none

/-- What an event does, with all that is so before it. -/
inductive Does (c : Conduit) : Event → Conduit → Prop
  | refused {thread : Nat} {op : FsOp} {inner : Inner} {e : FsError} (unlocked : c.draining = none)
      (fresh : thread ∉ c.callers) (asked : c.inner.call op = (inner, .error e)) :
      Does c (.call thread op) { c with callers := c.callers.insert thread (.returned none (.error e)) }
  | called {thread : Nat} {op : FsOp} {inner : Inner} {id : Nat} (unlocked : c.draining = none)
      (fresh : thread ∉ c.callers) (asked : c.inner.call op = (inner, .ok id)) :
      Does c (.call thread op) { c with inner := inner, callers := c.callers.insert thread (.waiting id) }
  | cast {op : FsOp} (unlocked : c.draining = none) : Does c (.cast op) { c with inner := c.inner.cast op }
  | claimed {request : Nat × FsOp} {inner : Inner} (unlocked : c.draining = none)
      (next : c.inner.nextRequest = some (request, inner)) :
      Does c .claim { c with inner := inner, handed := request :: c.handed }
  | replied {id : Nat} {result : FsResult} (unlocked : c.draining = none) :
      Does c (.reply id result)
        { c with
          inner := (c.inner.reply id).1
          filling := if (c.inner.reply id).2 then (id, result) :: c.filling else c.filling
          answers := c.note id result }
  | filled {id : Nat} {result : FsResult} (pending : c.filling.lookup id = some result) (free : c.slotFree id = true) :
      Does c (.fill id)
        { c with
          slots := c.slots.insert id result
          filling := c.filling.filter fun pending => pending.1 ≠ id }
  | taken {thread id : Nat} {result : FsResult} (found : c.callers.lookup thread = some (.waiting id))
      (full : c.slots.lookup id = some result) :
      Does c (.take thread)
        { c with
          callers := c.callers.insert thread (.returned (some id) result)
          slots := c.slots.erase id }
  | expired {thread id : Nat} (found : c.callers.lookup thread = some (.waiting id)) :
      Does c (.expire thread) { c with callers := c.callers.insert thread (.expired id) }
  | withdrawn {thread id : Nat} (unlocked : c.draining = none) (found : c.callers.lookup thread = some (.expired id)) :
      Does c (.withdraw thread)
        { c with
          inner := c.inner.withdraw id
          callers := c.callers.insert thread (.returned (some id) (.error .timeout)) }
  | attached (unlocked : c.draining = none) : Does c .attach { c with inner := c.inner.beginServing }
  | detaches (unlocked : c.draining = none) :
      Does c .detach { c with inner := c.inner.endServing.1, draining := some c.inner.endServing.2 }
  | failed {id : Nat} {ids : List Nat} (draining : c.draining = some ids) (owed : id ∈ ids) (free : c.slotFree id = true) :
      Does c (.fail id) { c with slots := c.slots.insert id (.error .dead), draining := some (ids.erase id) }
  | detached (draining : c.draining = some []) : Does c .detached { c with draining := none }

theorem does_of_step {c c' : Conduit} {event : Event} (happens : c.step event = some c') : c.Does event c' := by
  have unlocked_of : ¬c.draining.isSome = true → c.draining = none := Option.not_isSome_iff_eq_none.1
  cases event with
  | call thread op =>
    simp only [step] at happens
    split at happens
    · cases happens
    · next entering =>
        rw [Bool.or_eq_true, not_or, decide_eq_true_eq] at entering
        split at happens
        · next asked => cases happens; exact .refused (unlocked_of entering.1) entering.2 asked
        · next asked => cases happens; exact .called (unlocked_of entering.1) entering.2 asked
  | cast op =>
    simp only [step] at happens
    split at happens
    · cases happens
    · next unlocked => cases happens; exact .cast (unlocked_of unlocked)
  | claim =>
    simp only [step] at happens
    split at happens
    · cases happens
    · next unlocked =>
        split at happens
        · cases happens
        · next claimed => cases happens; exact .claimed (unlocked_of unlocked) claimed
  | reply id result =>
    simp only [step] at happens
    split at happens
    · cases happens
    · next unlocked => cases happens; exact .replied (unlocked_of unlocked)
  | fill id =>
    simp only [step] at happens
    split at happens
    · cases happens
    · next pending =>
        split at happens
        · next free => cases happens; exact .filled pending free
        · cases happens
  | take thread =>
    simp only [step] at happens
    split at happens
    · next found =>
        split at happens
        · next full => cases happens; exact .taken found full
        · cases happens
    · cases happens
  | expire thread =>
    simp only [step] at happens
    split at happens
    · next found =>
        split at happens
        · cases happens; exact .expired found
        · cases happens
    · cases happens
  | withdraw thread =>
    simp only [step] at happens
    split at happens
    · cases happens
    · next unlocked =>
        split at happens
        · next found => cases happens; exact .withdrawn (unlocked_of unlocked) found
        · cases happens
  | attach =>
    simp only [step] at happens
    split at happens
    · cases happens
    · next unlocked => cases happens; exact .attached (unlocked_of unlocked)
  | detach =>
    simp only [step] at happens
    split at happens
    · cases happens
    · next unlocked => cases happens; exact .detaches (unlocked_of unlocked)
  | fail id =>
    simp only [step] at happens
    split at happens
    · cases happens
    · next draining =>
        split at happens
        · next locked =>
            rw [Bool.and_eq_true, decide_eq_true_eq] at locked
            cases happens
            exact .failed draining locked.1 locked.2
        · cases happens
  | detached =>
    simp only [step] at happens
    split at happens
    · next draining => cases happens; exact .detached draining
    · cases happens

/-! ## What every order of events keeps -/

/-- Every caller fits, and no two have issued the same request. -/
structure Told (callers : Table Nat Caller) (answers : Table Nat FsResult) (nextId : Nat) : Prop where
  fits : ∀ {thread caller}, callers.lookup thread = some caller → caller.Fits answers nextId
  own : ∀ {thread thread' caller caller' id}, callers.lookup thread = some caller →
    callers.lookup thread' = some caller' → caller.issued = some id → caller'.issued = some id →
    thread = thread'

section Told

variable {callers : Table Nat Caller} {answers answers' : Table Nat FsResult} {nextId nextId' : Nat}

theorem Caller.Fits.mono {caller : Caller} (fits : caller.Fits answers nextId)
    (more : ∀ {id result}, answers.lookup id = some result → answers'.lookup id = some result)
    (up : nextId ≤ nextId') : caller.Fits answers' nextId' := by
  cases caller with
  | waiting id => exact lt_of_lt_of_le fits up
  | expired id => exact lt_of_lt_of_le fits up
  | returned id result =>
    cases id with
    | none => exact fits
    | some id => exact ⟨fits.1.trans_le up, fits.2.imp_left more⟩

theorem Caller.Fits.issued_lt {caller : Caller} {id : Nat} (fits : caller.Fits answers nextId)
    (issued : caller.issued = some id) : id < nextId := by
  cases caller with
  | waiting other => cases issued; exact fits
  | expired other => cases issued; exact fits
  | returned other result => cases issued; exact fits.1

theorem Told.mono (told : Told callers answers nextId)
    (more : ∀ {id result}, answers.lookup id = some result → answers'.lookup id = some result)
    (up : nextId ≤ nextId') : Told callers answers' nextId' where
  fits found := Caller.Fits.mono (told.fits found) more up
  own := told.own

/-- A caller moves on, with a request that is no other's. -/
theorem Told.put {thread : Nat} {caller : Caller} (told : Told callers answers nextId)
    (fits : caller.Fits answers nextId)
    (alone : ∀ {other caller' id}, other ≠ thread → callers.lookup other = some caller' →
      caller'.issued = some id → caller.issued ≠ some id) :
    Told (callers.insert thread caller) answers nextId where
  fits {other caller'} found := by
    rw [Table.lookup_insert_eq] at found
    split at found
    · cases found
      exact fits
    · exact told.fits found
  own {t t' a b id} found found' issued issued' := by
    rw [Table.lookup_insert_eq] at found found'
    split at found
    · next here =>
        cases found
        split at found'
        · next there => exact here.trans there.symm
        · next other => exact absurd issued (alone other found' issued')
    · next other =>
        split at found'
        · cases found'
          exact absurd issued' (alone other found issued)
        · exact told.own found found' issued issued'

/-- A caller moves on with the request it had. -/
theorem Told.move {thread : Nat} {caller next : Caller} (told : Told callers answers nextId)
    (found : callers.lookup thread = some caller) (same : next.issued = caller.issued)
    (fits : next.Fits answers nextId) : Told (callers.insert thread next) answers nextId :=
  told.put fits fun other there issued issued' =>
    other (told.own there found issued (same ▸ issued'))

end Told

/-- The results are the calls' own, and the requests are handed out once. -/
structure Matched (c : Conduit) : Prop where
  orderly : c.inner.Orderly
  told : Told c.callers c.answers c.inner.nextId
  answered : ∀ {id result}, c.answers.lookup id = some result → id < c.inner.nextId
  /-- A request still owed a reply was replied to by nobody. -/
  owed : ∀ {id}, id ∈ c.inner.outstanding → c.answers.lookup id = none
  filling : ∀ {id result}, (id, result) ∈ c.filling → c.answers.lookup id = some result
  slots : ∀ {id result}, c.slots.lookup id = some result →
    c.answers.lookup id = some result ∨ result = .error .dead
  handed : ((c.handed ++ c.inner.queue).map Prod.fst).Nodup
  claimed : ∀ {request}, request ∈ c.handed → request.1 < c.inner.nextId

theorem Matched.new : Conduit.new.Matched where
  orderly := .new
  told :=
    { fits := by intro thread caller found; cases found
      own := by intro thread thread' caller caller' id found; cases found }
  answered found := by cases found
  owed member := by cases member
  filling member := by cases member
  slots found := by cases found
  handed := List.nodup_nil
  claimed member := by cases member

variable {c c' : Conduit}

theorem note_of_some {id other : Nat} {result answer : FsResult}
    (answered : c.answers.lookup other = some answer) :
    (c.note id result).lookup other = some answer := by
  unfold note
  split
  · next fresh =>
      simp only [Bool.and_eq_true, decide_eq_true_eq, Option.isNone_iff_eq_none] at fresh
      rw [Table.lookup_insert_eq, if_neg, answered]
      rintro rfl
      rw [fresh.2] at answered
      cases answered
  · exact answered

theorem note_of_ne {id other : Nat} {result : FsResult} (different : other ≠ id) :
    (c.note id result).lookup other = c.answers.lookup other := by
  unfold note
  split
  · exact AList.lookup_insert_ne different
  · rfl

/-- The requests handed out and queued, with one more in the queue. -/
theorem Matched.enqueued (matched : c.Matched) (op : FsOp) :
    ((c.handed ++ (c.inner.queue ++ [(c.inner.nextId, op)])).map Prod.fst).Nodup := by
  rw [← List.append_assoc, List.map_append, List.nodup_append]
  refine ⟨matched.handed, by simp, ?_⟩
  rintro a old b new rfl
  obtain ⟨request, member, rfl⟩ := List.mem_map.1 old
  have small : request.1 < c.inner.nextId := by
    rcases List.mem_append.1 member with handed | queued
    · exact matched.claimed handed
    · exact matched.orderly.queued queued
  simp only [List.map_cons, List.map_nil, List.mem_singleton] at new
  omega

theorem Matched.refused (matched : c.Matched) {thread : Nat} {op : FsOp} {inner : Inner} {e : FsError}
    (asked : c.inner.call op = (inner, .error e)) :
    ({ c with callers := c.callers.insert thread (.returned none (.error e)) } : Conduit).Matched := by
  rcases c.inner.call_cases op with ⟨e', refused, code⟩ | ⟨_, accepted⟩
  · cases refused.symm.trans asked
    have fits : (Caller.returned none (.error e)).Fits c.answers c.inner.nextId := by
      rcases code with rfl | rfl
      · exact .inl rfl
      · exact .inr rfl
    exact { matched with told := matched.told.put fits fun _ _ _ => by simp [Caller.issued] }
  · cases accepted.symm.trans asked

theorem Matched.called (matched : c.Matched) {thread : Nat} {op : FsOp} {inner : Inner} {id : Nat}
    (asked : c.inner.call op = (inner, .ok id)) :
    ({ c with inner := inner, callers := c.callers.insert thread (.waiting id) } : Conduit).Matched := by
  have orderly := matched.orderly.call op
  rcases c.inner.call_cases op with ⟨_, refused, _⟩ | ⟨_, accepted⟩
  · cases refused.symm.trans asked
  · rw [accepted] at orderly
    cases accepted.symm.trans asked
    have up : c.inner.nextId ≤ c.inner.nextId + 1 := Nat.le_succ _
    have told : Told c.callers c.answers (c.inner.nextId + 1) := matched.told.mono (fun found => found) up
    refine { matched with
      orderly := orderly
      told := told.put (Nat.lt_succ_self c.inner.nextId) fun _ there issued same => ?_
      answered := fun found => (matched.answered found).trans_le up
      owed := fun member => ?_
      handed := matched.enqueued op
      claimed := fun member => (matched.claimed member).trans_le up }
    · cases same
      exact lt_irrefl _ (Caller.Fits.issued_lt (matched.told.fits there) issued)
    · rcases List.mem_cons.1 member with rfl | old
      · by_contra some
        obtain ⟨result, found⟩ := Option.ne_none_iff_exists'.1 some
        exact lt_irrefl _ (matched.answered found)
      · exact matched.owed old

/-- The connection changes without a new request. -/
theorem Matched.relax (matched : c.Matched) {inner : Inner} (orderly : inner.Orderly)
    (nextId : inner.nextId = c.inner.nextId) (outstanding : inner.outstanding ⊆ c.inner.outstanding)
    (queue : inner.queue.Sublist c.inner.queue) : ({ c with inner := inner } : Conduit).Matched :=
  { matched with
    orderly := orderly
    told := nextId ▸ matched.told
    answered := fun found => nextId ▸ matched.answered found
    owed := fun member => matched.owed (outstanding member)
    handed := matched.handed.sublist ((List.Sublist.append_left queue _).map _)
    claimed := fun member => nextId ▸ matched.claimed member }

theorem Matched.cast (matched : c.Matched) (op : FsOp) :
    ({ c with inner := c.inner.cast op } : Conduit).Matched := by
  have orderly := matched.orderly.cast op
  rcases c.inner.cast_cases op with dropped | ⟨_, accepted⟩
  · rw [dropped]
    exact matched
  · rw [accepted] at orderly ⊢
    exact { matched with
      orderly := orderly
      told := matched.told.mono id (Nat.le_succ _)
      answered := fun found => (matched.answered found).trans (Nat.lt_succ_self _)
      handed := matched.enqueued op
      claimed := fun member => (matched.claimed member).trans (Nat.lt_succ_self _) }

theorem Matched.claim (matched : c.Matched) {request : Nat × FsOp} {inner : Inner}
    (claimed : c.inner.nextRequest = some (request, inner)) :
    ({ c with inner := inner, handed := request :: c.handed } : Conduit).Matched := by
  have orderly := matched.orderly.nextRequest claimed
  unfold Inner.nextRequest at claimed
  split at claimed
  · cases claimed
  · next first rest queue =>
      cases claimed
      have order : (request :: c.handed ++ rest).Perm (c.handed ++ c.inner.queue) := by
        rw [queue]
        exact List.perm_middle.symm
      refine { matched with orderly := orderly, handed := ?_, claimed := ?_ }
      · exact (order.map Prod.fst).nodup_iff.2 matched.handed
      · intro other member
        rcases List.mem_cons.1 member with rfl | old
        · exact matched.orderly.queued (queue ▸ List.mem_cons_self ..)
        · exact matched.claimed old

theorem Matched.reply (matched : c.Matched) (id : Nat) (result : FsResult) :
    ({ c with
        inner := (c.inner.reply id).1
        filling := if (c.inner.reply id).2 then (id, result) :: c.filling else c.filling
        answers := c.note id result } : Conduit).Matched := by
  have noted : ∀ {other answer}, c.answers.lookup other = some answer →
      (c.note id result).lookup other = some answer := note_of_some
  refine { matched with
    orderly := matched.orderly.reply id
    told := matched.told.mono noted le_rfl
    answered := ?_, owed := ?_, filling := ?_
    slots := fun found => (matched.slots found).imp_left noted }
  · intro other answer (found : (c.note id result).lookup other = some answer)
    by_cases here : other = id
    · subst here
      unfold note at found
      split at found
      · next fresh =>
          simp only [Bool.and_eq_true, decide_eq_true_eq] at fresh
          exact fresh.1
      · exact matched.answered found
    · rw [note_of_ne here] at found
      exact matched.answered found
  · intro other member
    have old : other ∈ c.inner.outstanding := List.mem_of_mem_erase member
    have different : other ≠ id := by
      rintro rfl
      exact (List.Nodup.not_mem_erase matched.orderly.once) member
    exact (note_of_ne different).trans (matched.owed old)
  · intro other answer member
    dsimp only at member
    split at member
    · next owed =>
        rcases List.mem_cons.1 member with same | old
        · cases same
          have member : id ∈ c.inner.outstanding := by simpa [Inner.reply] using owed
          simp [note, matched.orderly.owed member, matched.owed member]
        · exact noted (matched.filling old)
    · exact noted (matched.filling member)

theorem mem_of_lookup_pair {pairs : List (Nat × FsResult)} {id : Nat} {result : FsResult}
    (found : pairs.lookup id = some result) : (id, result) ∈ pairs := by
  induction pairs with
  | nil => cases found
  | cons pair rest ih =>
    rw [List.lookup_cons] at found
    split at found
    · next same =>
        cases found
        have here : id = pair.1 := by simpa using same
        rw [here]
        exact List.mem_cons_self ..
    · exact List.mem_cons_of_mem _ (ih found)

/-- A slot is filled with an answer to its request, or failed. -/
theorem Matched.put (matched : c.Matched) {id : Nat} {result : FsResult}
    {filling : List (Nat × FsResult)} {draining : Option (List Nat)}
    (fits : c.answers.lookup id = some result ∨ result = .error .dead)
    (fewer : ∀ pending, pending ∈ filling → pending ∈ c.filling) :
    ({ c with slots := c.slots.insert id result, filling := filling, draining := draining } :
      Conduit).Matched :=
  { matched with
    filling := fun member => matched.filling (fewer _ member)
    slots := fun found => by
      rw [Table.lookup_insert_eq] at found
      split at found
      · next here =>
          cases found
          exact here ▸ fits
      · exact matched.slots found }

/-- **No event gives a call another's result, or hands out a request again.** -/
theorem step_matched {event : Event} (happens : c.step event = some c') (matched : c.Matched) :
    c'.Matched := by
  cases does_of_step happens with
  | refused _ _ asked => exact matched.refused asked
  | called _ _ asked => exact matched.called asked
  | cast => exact matched.cast _
  | claimed _ next => exact matched.claim next
  | replied => exact matched.reply _ _
  | filled pending =>
    exact matched.put (.inl (matched.filling (mem_of_lookup_pair pending)))
      fun _ member => List.mem_of_mem_filter member
  | @taken thread id result found full =>
    have issued : id < c.inner.nextId := matched.told.fits found
    refine { matched with told := matched.told.move found rfl ⟨issued, ?_⟩, slots := ?_ }
    · exact (matched.slots full).imp_right .inl
    · intro other answer there
      rw [Table.lookup_erase_eq] at there
      split at there
      · cases there
      · exact matched.slots there
  | @expired thread id found =>
    have issued : id < c.inner.nextId := matched.told.fits found
    exact { matched with told := matched.told.move found rfl issued }
  | @withdrawn thread id _ found =>
    have issued : id < c.inner.nextId := matched.told.fits found
    have relaxed := matched.relax (matched.orderly.withdraw id) rfl
      (fun _ member => List.mem_of_mem_erase member) List.filter_sublist
    exact { relaxed with
      told := relaxed.told.move found rfl ⟨issued, .inr (.inr rfl)⟩ }
  | attached =>
    exact matched.relax matched.orderly.beginServing rfl (fun _ member => member) (.refl _)
  | detaches =>
    have relaxed := matched.relax (Inner.Orderly.endServing c.inner) rfl
      (fun _ member => by cases member) (List.nil_sublist _)
    exact { relaxed with }
  | failed => exact matched.put (.inr rfl) fun _ member => member
  | detached => exact { matched with }

/-! ## Every call returns -/

/-- The two waits do not meet: no detach begins while a caller past its deadline keeps
the slot of a call in flight, and no deadline passes while a detach waits for the slot. -/
def Calm (c : Conduit) : Event → Prop
  | .detach => ∀ id ∈ c.inner.outstanding, c.slotFree id = true
  | .expire thread => ∀ id ids, c.callers.lookup thread = some (.waiting id) →
      c.draining = some ids → id ∉ ids
  | _ => True

/-- A detach under way can fail every call it has still to fail. -/
def Clear (c : Conduit) : Prop :=
  ∀ ids, c.draining = some ids → ∀ id ∈ ids, c.slotFree id = true

theorem slotFree_iff {id : Nat} :
    c.slotFree id = true ↔ ∀ thread, c.callers.lookup thread ≠ some (.expired id) := by
  simp only [slotFree, List.all_eq_true, Table.mem_values, Bool.not_eq_true']
  constructor
  · intro free thread found
    have unlocked := free _ ⟨thread, found⟩
    simp [Caller.locks] at unlocked
  · rintro none caller ⟨thread, found⟩
    cases caller with
    | expired other =>
      have different : other ≠ id := by
        rintro rfl
        exact none thread found
      simpa [Caller.locks] using different
    | _ => rfl

/-- A slot stays free unless a caller expires on it. -/
theorem slotFree_put {id thread : Nat} {caller : Caller} (free : c.slotFree id = true)
    (other : caller ≠ .expired id) {inner : Inner} {slots : Table Nat FsResult} :
    ({ c with inner := inner, callers := c.callers.insert thread caller, slots := slots } :
      Conduit).slotFree id = true := by
  rw [slotFree_iff] at free ⊢
  intro t found
  dsimp only at found
  rw [Table.lookup_insert_eq] at found
  split at found
  · exact other (Option.some.inj found)
  · exact free t found

theorem clear_of_unlocked (unlocked : c.draining = none) : c.Clear := by
  intro ids draining
  rw [unlocked] at draining
  cases draining

/-- An event in a calm moment leaves a detach able to finish. -/
theorem step_clear {event : Event} (calm : c.Calm event) (happens : c.step event = some c')
    (clear : c.Clear) : c'.Clear := by
  cases does_of_step happens with
  | refused unlocked => exact clear_of_unlocked unlocked
  | called unlocked => exact clear_of_unlocked unlocked
  | cast unlocked => exact clear_of_unlocked unlocked
  | claimed unlocked => exact clear_of_unlocked unlocked
  | replied unlocked => exact clear_of_unlocked unlocked
  | withdrawn unlocked => exact clear_of_unlocked unlocked
  | attached unlocked => exact clear_of_unlocked unlocked
  | detached => exact clear_of_unlocked rfl
  | filled => exact clear
  | taken => exact fun ids draining id member => slotFree_put (clear ids draining id member) (by simp)
  | @expired thread id found =>
    intro ids draining other member
    refine slotFree_put (clear ids draining other member) ?_
    rintro ⟨⟩
    exact calm id ids found draining member
  | detaches =>
    rintro ids ⟨⟩ id member
    exact calm id member
  | @failed id ids draining =>
    rintro _ ⟨⟩ other member
    exact clear ids draining other (List.mem_of_mem_erase member)

/-- How much is under way. -/
def work (c : Conduit) : Nat :=
  ((Table.values c.callers).map Caller.work).sum + c.filling.length +
    match c.draining with
    | none => 0
    | some ids => ids.length + 1

theorem work_put {callers : Table Nat Caller} {thread : Nat} {caller : Caller}
    (found : callers.lookup thread = some caller) (next : Caller) (lower : next.work < caller.work) :
    ((Table.values (callers.insert thread next)).map Caller.work).sum <
      ((Table.values callers).map Caller.work).sum := by
  have before := ((Table.values_erase found).map Caller.work).sum_eq
  have after : Table.values (callers.insert thread next) = next :: Table.values (callers.erase thread) :=
    rfl
  rw [before, after]
  simpa using lower

/-- What is under way only gets less. -/
theorem step_work {event : Event} (inside : event.inside = true) (happens : c.step event = some c') :
    c'.work < c.work := by
  cases does_of_step happens with
  | @filled id result pending =>
    have fewer : (c.filling.filter fun pending => pending.1 ≠ id).length < c.filling.length := by
      refine List.length_filter_lt_length_iff_exists.2 ⟨_, mem_of_lookup_pair pending, ?_⟩
      simp
    simp only [work]
    omega
  | @taken thread id result found =>
    have less := work_put found (.returned (some id) result) (Nat.succ_pos _)
    simp only [work]
    omega
  | @expired thread id found =>
    have less := work_put found (.expired id) (Nat.lt_succ_self _)
    simp only [work]
    omega
  | @withdrawn thread id _ found =>
    have less := work_put found (.returned (some id) (.error .timeout)) (Nat.succ_pos _)
    simp only [work]
    omega
  | @failed id ids draining owed =>
    have fewer := List.length_erase_of_mem owed
    have some := List.length_pos_of_mem owed
    simp only [work, draining]
    omega
  | detached draining =>
    simp only [work, draining]
    simp
  | refused => cases inside
  | called => cases inside
  | cast => cases inside
  | claimed => cases inside
  | replied => cases inside
  | attached => cases inside
  | detaches => cases inside

/-- As long as a call has not returned, something under way can go on, and calmly. -/
theorem moves (clear : c.Clear) {thread : Nat} {caller : Caller}
    (found : c.callers.lookup thread = some caller) (out : caller.back = false) :
    ∃ event c', (c.Calm event ∧ event.inside = true) ∧ c.step event = some c' := by
  cases draining : c.draining with
  | some ids =>
    cases ids with
    | nil =>
      exact ⟨.detached, _, ⟨trivial, rfl⟩, by
        simp only [step, draining]
        rfl⟩
    | cons id rest =>
      have free : c.slotFree id = true := clear _ draining id (List.mem_cons_self ..)
      exact ⟨.fail id, _, ⟨trivial, rfl⟩, by
        simp only [step, draining, List.mem_cons_self, free]
        rfl⟩
  | none =>
    cases caller with
    | waiting id =>
      cases filled : c.slots.lookup id with
      | some result =>
        exact ⟨.take thread, _, ⟨trivial, rfl⟩, by
          simp only [step, found, filled]
          rfl⟩
      | none =>
        refine ⟨.expire thread, _, ⟨fun other ids _ locked => ?_, rfl⟩, by
          simp only [step, found, filled]
          rfl⟩
        rw [draining] at locked
        cases locked
    | expired id =>
      exact ⟨.withdraw thread, _, ⟨trivial, rfl⟩, by
        simp only [step, draining, found]
        rfl⟩
    | returned id result => cases out

/-- A result is final. -/
theorem step_final {event : Event} {thread : Nat} {id : Option Nat} {result : FsResult}
    (happens : c.step event = some c')
    (found : c.callers.lookup thread = some (.returned id result)) :
    c'.callers.lookup thread = some (.returned id result) := by
  have kept : ∀ {other : Nat} {next : Caller}, c.callers.lookup other ≠ some (.returned id result) →
      (c.callers.insert other next).lookup thread = some (.returned id result) := by
    intro other next different
    rw [AList.lookup_insert_ne, found]
    rintro rfl
    exact different found
  have absent : ∀ {other : Nat}, other ∉ c.callers → c.callers.lookup other ≠ some (.returned id result) :=
    fun fresh there => fresh (Table.mem_of_lookup there)
  cases does_of_step happens with
  | refused _ fresh => exact kept (absent fresh)
  | called _ fresh => exact kept (absent fresh)
  | taken there => exact kept (by rw [there]; nofun)
  | expired there => exact kept (by rw [there]; nofun)
  | withdrawn _ there => exact kept (by rw [there]; nofun)
  | cast => exact found
  | claimed => exact found
  | replied => exact found
  | filled => exact found
  | attached => exact found
  | detaches => exact found
  | failed => exact found
  | detached => exact found

/-- **A conduit in calm moments.**  A returned call got the first reply to its own request,
or Dead, Timeout or Io, and keeps it; no two calls share a request and none is handed out
twice; a conduit that is not served is empty.  Left alone, what is under way ends, and it
cannot end before every call has returned. -/
theorem calls_matched {events : List Event} (ran : Scheduled step Calm new events c) :
    (∀ thread id result, c.callers.lookup thread = some (.returned (some id) result) →
      c.answers.lookup id = some result ∨ result = .error .dead ∨ result = .error .timeout) ∧
    (∀ thread result, c.callers.lookup thread = some (.returned none result) →
      result = .error .dead ∨ result = .error .io) ∧
    (∀ thread thread' caller caller' id, c.callers.lookup thread = some caller →
      c.callers.lookup thread' = some caller' → caller.issued = some id →
      caller'.issued = some id → thread = thread') ∧
    (c.handed.map Prod.fst).Nodup ∧
    (c.inner.serving = false → c.inner.queue = [] ∧ c.inner.outstanding = []) ∧
    (∀ thread id result later c', c.callers.lookup thread = some (.returned id result) →
      Scheduled step (fun _ _ => True) c later c' →
      c'.callers.lookup thread = some (.returned id result)) ∧
    (∀ later c', Scheduled step (fun c event => c.Calm event ∧ event.inside = true) c later c' →
      later.length ≤ c.work ∧
        ((∀ thread caller, c'.callers.lookup thread = some caller → caller.back = true) ∨
          ∃ event c'', (c'.Calm event ∧ event.inside = true) ∧ c'.step event = some c'')) := by
  have matched : c.Matched :=
    ran.keeps (fun _ _ _ _ happens before => step_matched happens before) .new
  have clear : c.Clear :=
    ran.keeps (fun _ _ _ calm happens before => step_clear calm happens before)
      (clear_of_unlocked rfl)
  refine ⟨fun thread id result found => (matched.told.fits found).2,
    fun thread result found => matched.told.fits found,
    fun thread thread' caller caller' id => matched.told.own,
    ?_, matched.orderly.idle, ?_, ?_⟩
  · have distinct := matched.handed
    rw [List.map_append] at distinct
    exact distinct.of_append_left
  · intro thread id result later c' found further
    exact further.keeps (fun _ _ _ _ happens before => step_final happens before) found
  · intro later c' further
    have stillClear : c'.Clear :=
      further.keeps (fun _ _ _ calm happens before => step_clear calm.1 happens before) clear
    refine ⟨?_, ?_⟩
    · have bounded := further.length_le fun _ _ _ calm happens => step_work calm.2 happens
      omega
    · by_cases all : ∀ thread caller, c'.callers.lookup thread = some caller → caller.back = true
      · exact .inl all
      · push Not at all
        obtain ⟨thread, caller, found, out⟩ := all
        exact .inr (moves stillClear found (by simpa using out))

/-- A call that is answered, and a detach afterwards. -/
theorem calls_matched_answered : ∃ c : Conduit, c.callers.lookup 0 = some (.returned (some 1) (.ok .done)) ∧
    (c.answers.lookup 1 = some (.ok .done) ∨ (.ok .done : FsResult) = .error .dead ∨
      (.ok .done : FsResult) = .error .timeout) := by
  have ran : Scheduled step Calm new
      [.attach, .call 0 (.mkdir "d"), .claim, .reply 1 (.ok .done), .fill 1, .take 0, .detach,
        .detached] _ :=
    .cons trivial rfl <| .cons trivial rfl <| .cons trivial rfl <| .cons trivial rfl <|
      .cons trivial rfl <| .cons trivial rfl <|
      .cons (fun _ member => by cases member) rfl <| .cons trivial rfl (.nil _)
  exact ⟨_, rfl, (calls_matched ran).1 0 1 (.ok .done) rfl⟩

/-! ## Where the two waits meet -/

/-- A caller keeps a slot that a detach waits for, while it waits for the detach. -/
def Stuck (thread id : Nat) (c : Conduit) : Prop :=
  c.callers.lookup thread = some (.expired id) ∧ ∃ ids, c.draining = some ids ∧ id ∈ ids

/-- Nothing helps. -/
theorem step_stuck {thread id : Nat} {event : Event} (happens : c.step event = some c')
    (stuck : c.Stuck thread id) : c'.Stuck thread id := by
  obtain ⟨found, ids, draining, member⟩ := stuck
  have locked : c.draining ≠ none := by
    rw [draining]
    nofun
  have kept : ∀ {other next waiting}, c.callers.lookup other = some (.waiting waiting) →
      (c.callers.insert other next).lookup thread = some (.expired id) := by
    intro other next waiting there
    rw [AList.lookup_insert_ne, found]
    rintro rfl
    rw [found] at there
    cases there
  cases does_of_step happens with
  | filled => exact ⟨found, ids, draining, member⟩
  | taken there => exact ⟨kept there, ids, draining, member⟩
  | expired there => exact ⟨kept there, ids, draining, member⟩
  | @failed other _ draining' _ free =>
    cases draining.symm.trans draining'
    have different : id ≠ other := by
      rintro rfl
      exact slotFree_iff.1 free thread found
    exact ⟨found, _, rfl, (List.mem_erase_of_ne different).2 member⟩
  | detached draining' =>
    cases draining.symm.trans draining'
    cases member
  | refused unlocked => exact absurd unlocked locked
  | called unlocked => exact absurd unlocked locked
  | cast unlocked => exact absurd unlocked locked
  | claimed unlocked => exact absurd unlocked locked
  | replied unlocked => exact absurd unlocked locked
  | withdrawn unlocked => exact absurd unlocked locked
  | attached unlocked => exact absurd unlocked locked
  | detaches unlocked => exact absurd unlocked locked

/-- An event in a moment that is not calm leaves a call that never returns. -/
theorem stuck_of_not_calm {event : Event} (happens : c.step event = some c')
    (rash : ¬ c.Calm event) : ∃ thread id, c'.Stuck thread id := by
  cases does_of_step happens with
  | detaches =>
    simp only [Calm, not_forall] at rash
    obtain ⟨id, owed, locked⟩ := rash
    simp only [slotFree_iff, not_forall, not_not] at locked
    obtain ⟨thread, found⟩ := locked
    exact ⟨thread, id, found, _, rfl, owed⟩
  | @expired thread _ there =>
    simp only [Calm, not_forall, not_not] at rash
    obtain ⟨id, ids, found, draining, member⟩ := rash
    obtain rfl : _ = id := by injection Option.some.inj (there.symm.trans found)
    exact ⟨thread, _, AList.lookup_insert _, ids, draining, member⟩
  | _ => exact absurd trivial rash

/-- A call past its deadline and a detach: neither ever ends. -/
theorem expired_call_never_returns :
    ∃ c, perform step new [.attach, .call 0 (.mkdir "d"), .expire 0, .detach] = some c ∧
      ∀ later c', Scheduled step (fun _ _ => True) c later c' →
        c'.callers.lookup 0 = some (.expired 1) := by
  refine ⟨_, rfl, fun later c' further => ?_⟩
  exact (further.keeps (Q := Stuck 0 1) (fun _ _ _ _ happens before => step_stuck happens before)
    ⟨rfl, _, rfl, List.mem_cons_self ..⟩).1

end Conduit

end Wk.Provider
