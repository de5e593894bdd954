/-
# Wk.Midi.Backlog -- what a flooded inbox loses

A full inbox sheds one event for each that comes.  It prefers one that is not a note-off, and
where there is none it takes the oldest.

* `shedding_lawful_iff`: the receiver is never left with a note on that the sender turned
  off, exactly while no note-off is shed whose note the receiver holds.

Pole: `flood_of_offs` (a held note, and then nothing but note-offs).
-/
import Wk.Midi.Release
import Wk.Library.Run

namespace Wk.Midi

open Wk.Library

set_option autoImplicit false

/-! ## What an event says of a key -/

namespace Event

/-- The key a note-off is for. -/
def releases (e : Event) : Option Key :=
  match e.data with
  | [status, a, _] => if e.isNoteOff then some (status &&& 0x0F, a) else none
  | _ => none

/-- On, off, or nothing. -/
def word (k : Key) (e : Event) : Option Bool :=
  if turnsOn e.data = some k then some true else if e.releases = some k then some false else none

theorem noteOff_of_releases {e : Event} {k : Key} (off : e.releases = some k) : e.isNoteOff = true := by
  unfold releases at off
  split at off
  · by_contra note
    rw [if_neg note] at off
    cases off
  · cases off

theorem releases_of_word {e : Event} {k : Key} (off : e.word k = some false) : e.releases = some k := by
  unfold word at off
  split at off
  · cases off
  · split at off
    · assumption
    · cases off

end Event

/-- The last word on a key. -/
def lastWord (k : Key) (ds : List Delivery) : Option Bool := (ds.filterMap fun d => d.event.word k).getLast?

/-- A note that is still down. -/
def Sounds (k : Key) (ds : List Delivery) : Prop := lastWord k ds = some true

instance (k : Key) (ds : List Delivery) : Decidable (Sounds k ds) := inferInstanceAs (Decidable (_ = _))

theorem lastWord_singleton (k : Key) (d : Delivery) : lastWord k [d] = d.event.word k := by
  unfold lastWord
  cases said : d.event.word k <;> simp [said]

theorem lastWord_append (k : Key) (xs ys : List Delivery) : lastWord k (xs ++ ys) = (lastWord k ys).or (lastWord k xs) := by
  rw [lastWord, List.filterMap_append, List.getLast?_append]
  rfl

/-! ## Calls -/

namespace Inbox

/-- Take everything queued, leaving the inbox empty. -/
def drain (inbox : Inbox) : Inbox := { inbox with queue := [], received := inbox.received ++ inbox.queue }

/-- What is shed for the next event: the first that is not a note-off, or the oldest. -/
def victim (inbox : Inbox) : Option Nat :=
  if backlog ≤ inbox.queue.length then some ((inbox.queue.findIdx? fun d => !d.event.isNoteOff).getD 0) else none

theorem push_queue (inbox : Inbox) (d : Delivery) :
    (inbox.push d).queue = (inbox.victim.elim inbox.queue inbox.queue.eraseIdx) ++ [d] := by
  unfold push victim
  split
  · cases inbox.queue.findIdx? fun d => !d.event.isNoteOff with
    | none => exact congrArg (· ++ [d]) List.eraseIdx_zero.symm
    | some i => rfl
  · rfl

@[simp] theorem push_received (inbox : Inbox) (d : Delivery) : (inbox.push d).received = inbox.received := by
  unfold push
  split <;> rfl

end Inbox

/-- A source pushes, or the node takes one event or all of them. -/
inductive Call where
  | push (d : Delivery)
  | receive
  | drain
  deriving DecidableEq, Repr

/-- An inbox with everything that was pushed. -/
structure Fed where
  inbox : Inbox := {}
  sent : List Delivery := []

namespace Fed

def step (s : Fed) : Call → Fed
  | .push d => { inbox := s.inbox.push d, sent := s.sent ++ [d] }
  | .receive => { s with inbox := s.inbox.receive }
  | .drain => { s with inbox := s.inbox.drain }

/-- The queue is bounded, its events are in the order in which they were pushed, and no note
is on for the receiver that the sender has turned off. -/
structure Lawful (s : Fed) : Prop where
  bounded : s.inbox.queue.length ≤ backlog
  ordered : s.inbox.all.Sublist s.sent
  released : ∀ k, Sounds k s.inbox.all → lastWord k s.sent ≠ some false

/-- The event that goes is no note-off whose note-on is still queued before it or has been
drained. -/
def Kept (s : Fed) : Prop :=
  ∀ i e k, s.inbox.victim = some i → s.inbox.queue[i]? = some e → e.event.releases = some k →
    ¬ Sounds k (s.inbox.received ++ s.inbox.queue.take i)

/-- A call that leaves the inbox lawful and loses no release. -/
def Sheds (s : Fed) (c : Call) : Prop := (s.step c).Lawful ∧ ∀ d, c = .push d → s.Kept

/-- The queue has room or something besides note-offs, or its oldest is for a note the
receiver does not hold. -/
def Spares (s : Fed) (c : Call) : Prop :=
  ∀ d, c = .push d → backlog ≤ s.inbox.queue.length → (∀ e ∈ s.inbox.queue, e.event.isNoteOff = true) →
    ∀ e k, s.inbox.queue.head? = some e → e.event.releases = some k → ¬ Sounds k s.inbox.received

end Fed

/-! ## One call -/

section

variable {inbox : Inbox} {s : Fed} {c : Call} {d e : Delivery} {before after : List Delivery} {k : Key}

/-- The event that is shed: one that is not a note-off, or the oldest of nothing else. -/
theorem Inbox.victim_cases {i : Nat} (shed : inbox.victim = some i) :
    backlog ≤ inbox.queue.length ∧ ∃ before e after, inbox.queue = before ++ e :: after ∧ before.length = i ∧
      (e.event.isNoteOff = false ∨ before = [] ∧ ∀ e ∈ inbox.queue, e.event.isNoteOff = true) := by
  unfold victim at shed
  split at shed
  · next full =>
      refine ⟨full, ?_⟩
      cases found : inbox.queue.findIdx? fun d => !d.event.isNoteOff with
      | none =>
        rw [found] at shed
        cases shed
        have offs : ∀ e ∈ inbox.queue, e.event.isNoteOff = true := fun e member => by
          simpa using List.findIdx?_eq_none_iff.1 found e member
        cases queue : inbox.queue with
        | nil =>
          rw [queue] at full
          exact absurd full (by decide)
        | cons e after => exact ⟨[], e, after, rfl, rfl, .inr ⟨rfl, queue ▸ offs⟩⟩
      | some j =>
        rw [found] at shed
        cases shed
        obtain ⟨bound, note, _⟩ := List.findIdx?_eq_some_iff_getElem.1 found
        refine ⟨inbox.queue.take j, inbox.queue[j], inbox.queue.drop (j + 1), ?_, List.length_take_of_le bound.le, .inl ?_⟩
        · rw [← List.drop_eq_getElem_cons bound, List.take_append_drop]
        · simpa using note
  · cases shed

theorem eraseIdx_at : (before ++ e :: after).eraseIdx before.length = before ++ after := by
  rw [List.eraseIdx_append_of_length_le (Nat.le_refl _), Nat.sub_self, List.eraseIdx_cons_zero]

/-- What is on without an event was on with it, unless it is the release of a note that is on
before it. -/
theorem sounds_of_shed {received : List Delivery} (harmless : e.event.word k = some false → ¬ Sounds k (received ++ before))
    (on : Sounds k (received ++ (before ++ after))) : Sounds k (received ++ (before ++ e :: after)) := by
  have split : lastWord k (e :: after) = (lastWord k after).or (e.event.word k) := by
    rw [← List.singleton_append, lastWord_append, lastWord_singleton]
  unfold Sounds at harmless on ⊢
  rw [lastWord_append, lastWord_append] at on
  rw [lastWord_append, lastWord_append, split]
  cases later : lastWord k after with
  | some b =>
    simp only [later, Option.some_or] at on ⊢
    exact on
  | none =>
    simp only [later, Option.none_or] at on ⊢
    cases word : e.event.word k with
    | none => exact on
    | some b =>
      cases b with
      | true => rfl
      | false =>
        have quiet := harmless word
        rw [lastWord_append] at quiet
        exact absurd on quiet

/-- What is pushed is said to both sides. -/
theorem released_push {all sent : List Delivery} (released : Sounds k all → lastWord k sent ≠ some false)
    (on : Sounds k (all ++ [d])) : lastWord k (sent ++ [d]) ≠ some false := by
  unfold Sounds at released on
  rw [lastWord_append, lastWord_singleton] at on ⊢
  cases said : d.event.word k with
  | some b =>
    simp only [said, Option.some_or] at on ⊢
    rw [on]
    simp
  | none =>
    simp only [said, Option.none_or] at on ⊢
    exact released on

namespace Fed

theorem kept_of_spares (spares : s.Spares (.push d)) : s.Kept := by
  intro i e k shed there off
  obtain ⟨full, before, e', after, queue, rfl, victim⟩ := Inbox.victim_cases shed
  have same : e' = e := by
    rw [queue, List.getElem?_append_right (Nat.le_refl _), Nat.sub_self] at there
    exact Option.some.inj there
  subst same
  rcases victim with note | ⟨rfl, offs⟩
  · rw [Event.noteOff_of_releases off] at note
    cases note
  · rw [List.length_nil, List.take_zero, List.append_nil]
    exact spares d rfl full offs e' k (by rw [queue]; rfl) off

theorem spares_of_kept (kept : s.Kept) : s.Spares (.push d) := by
  intro _ _ full offs e k head off
  have none_of : s.inbox.queue.findIdx? (fun d => !d.event.isNoteOff) = none :=
    List.findIdx?_eq_none_iff.2 fun e member => by rw [offs e member]; rfl
  have shed : s.inbox.victim = some 0 := by
    rw [Inbox.victim, if_pos full, none_of]
    rfl
  have quiet := kept 0 e k shed (by rw [← List.head?_eq_getElem?, head]) off
  rwa [List.take_zero, List.append_nil] at quiet

/-- A push that loses no release keeps an inbox lawful. -/
theorem push_lawful (lawful : s.Lawful) (kept : s.Kept) : (s.step (.push d)).Lawful := by
  have queue : (s.step (.push d)).inbox.queue = _ := s.inbox.push_queue d
  have received : (s.step (.push d)).inbox.received = s.inbox.received := s.inbox.push_received d
  cases shed : s.inbox.victim with
  | none =>
    rw [shed, Option.elim_none] at queue
    have room : s.inbox.queue.length < backlog := by
      unfold Inbox.victim at shed
      split at shed
      · cases shed
      · next room => exact not_le.1 room
    have all : (s.step (.push d)).inbox.all = s.inbox.all ++ [d] := by
      rw [Inbox.all, queue, received, Inbox.all, List.append_assoc]
    refine ⟨?_, ?_, fun k on => ?_⟩
    · rw [queue, List.length_append]
      exact room
    · rw [all]
      exact lawful.ordered.append (List.Sublist.refl _)
    · rw [all] at on
      exact released_push (lawful.released k) on
  | some i =>
    obtain ⟨full, before, e, after, split, rfl, _⟩ := Inbox.victim_cases shed
    have rest : (s.step (.push d)).inbox.queue = before ++ after ++ [d] := by
      rw [queue, shed, Option.elim_some, split, eraseIdx_at]
    have all : (s.step (.push d)).inbox.all = s.inbox.received ++ (before ++ after) ++ [d] := by
      rw [Inbox.all, rest, received, ← List.append_assoc]
    have whole : s.inbox.all = s.inbox.received ++ (before ++ e :: after) := by rw [Inbox.all, split]
    have place : s.inbox.queue[before.length]? = some e := by
      rw [split, List.getElem?_append_right (Nat.le_refl _), Nat.sub_self]
      rfl
    refine ⟨?_, ?_, fun k on => ?_⟩
    · have bounded := lawful.bounded
      rw [split] at bounded
      rw [rest]
      simpa [Nat.add_assoc] using bounded
    · have fewer : (s.inbox.received ++ (before ++ after)).Sublist s.inbox.all := by
        rw [whole]
        exact (List.Sublist.refl _).append ((List.Sublist.refl _).append (List.sublist_cons_self ..))
      rw [all]
      exact (fewer.trans lawful.ordered).append (List.Sublist.refl _)
    · rw [all] at on
      refine released_push (fun on => lawful.released k ?_) on
      rw [whole]
      refine sounds_of_shed (fun off => ?_) on
      have quiet := kept _ e k shed place (Event.releases_of_word off)
      rwa [split, List.take_left] at quiet

/-- What the node takes is only moved. -/
theorem take_lawful (lawful : s.Lawful) : (s.step .receive).Lawful ∧ (s.step .drain).Lawful := by
  have received : (s.step .receive).inbox.all = s.inbox.all := s.inbox.receive_all
  have drained : (s.step .drain).inbox.all = s.inbox.all := List.append_nil _
  constructor
  · refine ⟨?_, received ▸ lawful.ordered, received ▸ lawful.released⟩
    have shorter : s.inbox.queue.tail.length ≤ s.inbox.queue.length := by simp
    exact shorter.trans lawful.bounded
  · exact ⟨Nat.zero_le _, drained ▸ lawful.ordered, drained ▸ lawful.released⟩

end Fed

end

/-! ## Runs -/

namespace Fed

/-- Every call leaves the inbox lawful and loses no release, exactly where each push finds
room, or something besides note-offs, or at the head a release the receiver has no use for. -/
theorem shedding_lawful_iff (calls : List Call) : Along step Sheds {} calls ↔ Along step Spares {} calls := by
  have fresh : ({} : Fed).Lawful := ⟨by decide, List.nil_sublist _, fun k on => by cases on⟩
  have one : ∀ (s : Fed) (c : Call), s.Spares c → s.Lawful → (s.step c).Lawful := by
    intro s c spares lawful
    cases c with
    | push d => exact push_lawful lawful (kept_of_spares spares)
    | receive => exact (take_lawful lawful).1
    | drain => exact (take_lawful lawful).2
  constructor
  · intro sheds
    refine sheds.imp (fun _ _ _ _ => trivial) (fun s c _ sheds => ?_) (I := fun _ => True) trivial
    intro d push
    exact spares_of_kept (sheds.2 d push) d rfl
  · intro spares
    refine spares.imp one (fun s c lawful spares => ⟨one s c spares lawful, ?_⟩) fresh
    rintro d rfl
    exact kept_of_spares spares

/-- A row of pushes while there is room. -/
theorem run_pushes (d : Delivery) : ∀ (n : Nat) {s : Fed}, s.inbox.queue.length + n ≤ backlog →
    ((List.replicate n (.push d)).foldl step s).inbox.queue = s.inbox.queue ++ List.replicate n d ∧
      ((List.replicate n (.push d)).foldl step s).inbox.received = s.inbox.received
  | 0, s, _ => ⟨(List.append_nil _).symm, rfl⟩
  | n + 1, s, room => by
    have short : ¬ backlog ≤ s.inbox.queue.length := by omega
    have pushed : (s.step (.push d)).inbox.queue = s.inbox.queue ++ [d] := by
      have queue := s.inbox.push_queue d
      rwa [Inbox.victim, if_neg short, Option.elim_none] at queue
    have longer : (s.step (.push d)).inbox.queue.length + n ≤ backlog := by
      rw [pushed, List.length_append]
      exact (Nat.add_assoc ..).trans_le (by rwa [Nat.add_comm n 1] at room)
    obtain ⟨queue, received⟩ := run_pushes d n longer
    rw [List.replicate_succ, List.foldl_cons, queue, received, pushed, List.append_assoc, List.replicate_succ]
    exact ⟨rfl, s.inbox.push_received d⟩

def onOf (note : UInt8) : Delivery := { event := .now [0x90, note, 100], clock := 0 }
def offOf (note : UInt8) : Delivery := { event := .now [0x80, note, 0], clock := 0 }

/-- A note that is played and released. -/
def opening : List Call := [.push (onOf 60), .drain, .push (offOf 60)]

/-- The release of a note the node has taken, and then a flood of note-offs: the last sheds
the release. -/
theorem flood_of_offs : ¬ ∀ calls, Along step Sheds {} calls := by
  intro every
  have last := (every (opening ++ List.replicate 1023 (.push (offOf 61)) ++ [.push (offOf 61)])).append.2
  rw [List.foldl_append] at last
  obtain ⟨queue, received⟩ := @run_pushes (offOf 61) 1023 (opening.foldl step {}) (by decide)
  have spares : Spares _ (.push (offOf 61)) := spares_of_kept (last.1.2 _ rfl)
  have full : backlog ≤ ((opening.foldl step {}).inbox.queue ++ List.replicate 1023 (offOf 61)).length := by
    rw [List.length_append, List.length_replicate]
    decide
  have offs : ∀ e ∈ (opening.foldl step {}).inbox.queue ++ List.replicate 1023 (offOf 61), e.event.isNoteOff = true := by
    intro e member
    rcases List.mem_append.1 member with first | more
    · rw [List.mem_singleton.1 first]
      decide
    · rw [List.eq_of_mem_replicate more]
      decide
  have quiet := spares (offOf 61) rfl (queue ▸ full) (queue ▸ offs) (offOf 60) (0, 60) (by rw [queue]; rfl) (by decide)
  rw [received] at quiet
  exact quiet (by decide)

end Fed

end Wk.Midi
