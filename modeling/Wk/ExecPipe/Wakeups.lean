/-
# Wk.ExecPipe.Wakeups -- who is woken

A task that polls an end and is told "not yet" leaves its waker, in the one slot its side of
the pipe has.  Whatever may make its condition true wakes what is in the slot
(`Parked.step`); so a task is only ever missed where another one parked over it.

* `run_prompt`: with no task parking over another, whoever waits and could go has been woken.
* `parked_over_sleeps`: of two readers that wait, a write wakes the second.
-/
import Wk.ExecPipe
import Wk.Library.Run

namespace Wk.ExecPipe

set_option autoImplicit false

open Library (Along)

inductive Side where
  | reading
  | writing
  deriving DecidableEq, Repr

namespace PipeState

/-- The waker parked on a side. -/
def parked (s : PipeState) : Side → Option Waker
  | .reading => s.readerWaker
  | .writing => s.writerWaker

/-- What a side waits for: data or no writers, room or no readers. -/
def Goes (s : PipeState) : Side → Prop
  | .reading => s.buf ≠ [] ∨ s.writers = 0
  | .writing => s.buf.length < PIPE_CAPACITY ∨ s.readers = 0

instance (s : PipeState) : (side : Side) → Decidable (s.Goes side)
  | .reading => inferInstanceAs (Decidable (_ ∨ _))
  | .writing => inferInstanceAs (Decidable (_ ∨ _))

end PipeState

/-- A task's wait on a side, since its last poll there was pending. -/
structure Wait where
  /-- Its waker has been woken since. -/
  woken : Bool
  /-- What it waits for has been so since. -/
  due : Bool
  deriving DecidableEq, Repr

/-- A pipe with its users, and the tasks that wait on it. -/
structure Watched where
  piped : Piped := {}
  waits : Side → Waker → Option Wait := fun _ _ => none

namespace Watched

/-- A waker that leaves its slot is woken: nothing but a wake empties a slot, and a poll
puts another there without waking. -/
def wakes (before after : PipeState) (side : Side) (t : Waker) : Bool :=
  before.parked side = some t && after.parked side = none

/-- A wait after an operation that took the pipe from `before` to `after`. -/
def Wait.after (before after : PipeState) (side : Side) (t : Waker) (w : Wait) : Wait where
  woken := w.woken || wakes before after side t
  due := w.due || decide (after.Goes side)

/-- The side an operation polls, and for whom. -/
def polls : Op → Option (Side × Waker)
  | .pollReadable cx => some (.reading, cx)
  | .pollWritable cx => some (.writing, cx)
  | _ => none

/-- One operation.  A poll starts a wait or ends one, all other waits go on. -/
def step (q : Watched) (op : Op) : Watched where
  piped := q.piped.step op
  waits side t :=
    if polls op = some (side, t) then
      if q.piped.pipe.Goes side then none else some { woken := false, due := false }
    else (q.waits side t).map (Wait.after q.piped.pipe (q.piped.step op).pipe side t)

def run (ops : List Op) : Watched := ops.foldl step {}

/-- Whoever waits and could have gone since has been woken since. -/
def Prompt (q : Watched) : Prop :=
  ∀ side t w, q.waits side t = some w → w.due = true → w.woken = true

/-- The operation does not park a task where another one is parked. -/
def Alone (q : Watched) (op : Op) : Prop :=
  ∀ side t, polls op = some (side, t) → q.piped.pipe.Goes side ∨
    q.piped.pipe.parked side = none ∨ q.piped.pipe.parked side = some t

/-- Whoever waits has been woken, or is parked and could not have gone since. -/
def Parked (q : Watched) : Prop :=
  ∀ side t w, q.waits side t = some w → w.woken = true ∨
    q.piped.pipe.parked side = some t ∧ ¬q.piped.pipe.Goes side ∧ w.due = false

/-! ## What an operation does to a parked task -/

theorem read_pipe (p : Piped) (size : Nat) : (p.step (.read size)).pipe = (p.pipe.read size).2 := by
  simp only [Piped.step]
  split <;> rfl

theorem write_pipe (p : Piped) (bytes : Bytes) : (p.step (.write bytes)).pipe = (p.pipe.write bytes).2 := by
  simp only [Piped.step]
  split <;> rfl

theorem pollReadable_pipe {p : Piped} (stuck : ¬p.pipe.Goes .reading) (cx : Waker) :
    (p.step (.pollReadable cx)).pipe = { p.pipe with readerWaker := some cx } :=
  congrArg Prod.snd (if_neg stuck)

theorem pollWritable_pipe {p : Piped} (stuck : ¬p.pipe.Goes .writing) (cx : Waker) :
    (p.step (.pollWritable cx)).pipe = { p.pipe with writerWaker := some cx } :=
  congrArg Prod.snd (if_neg stuck)

/-- **One operation** on a pipe where a task is parked and could not go: it wakes the task,
or leaves it parked where it still could not. -/
theorem turn {p : Piped} {op : Op} {side : Side} {t : Waker} (parked : p.pipe.parked side = some t)
    (stuck : ¬p.pipe.Goes side) (other : polls op ≠ some (side, t))
    (alone : ∀ t', polls op = some (side, t') → p.pipe.parked side = some t') :
    wakes p.pipe (p.step op).pipe side t = true ∨
      (p.step op).pipe.parked side = some t ∧ ¬(p.step op).pipe.Goes side := by
  have woken : ∀ {after : PipeState}, after.parked side = none → wakes p.pipe after side t = true := by
    intro after empty
    simp [wakes, parked, empty]
  have same : (p.step op).pipe = p.pipe → wakes p.pipe (p.step op).pipe side t = true ∨
      (p.step op).pipe.parked side = some t ∧ ¬(p.step op).pipe.Goes side := by
    intro unchanged
    rw [unchanged]
    exact .inr ⟨parked, stuck⟩
  cases op with
  | reader =>
    cases side with
    | reading => exact .inr ⟨parked, stuck⟩
    | writing => exact .inr ⟨parked, fun goes => goes.elim (fun room => stuck (.inl room)) (Nat.succ_ne_zero _)⟩
  | writer =>
    cases side with
    | reading => exact .inr ⟨parked, fun goes => goes.elim (fun data => stuck (.inl data)) (Nat.succ_ne_zero _)⟩
    | writing => exact .inr ⟨parked, stuck⟩
  | dropReader r =>
    by_cases held : r ∈ p.readEnds
    · have dropped : (p.step (.dropReader r)).pipe = p.pipe.dropReader := by
        simp only [Piped.step, if_pos held]
      rw [dropped]
      cases side with
      | reading => exact .inr ⟨parked, stuck⟩
      | writing => exact .inl (woken rfl)
    · exact same (by simp only [Piped.step, if_neg held])
  | dropWriter w =>
    by_cases held : w ∈ p.writeEnds
    · have dropped : (p.step (.dropWriter w)).pipe = p.pipe.dropWriter := by
        simp only [Piped.step, if_pos held]
      rw [dropped, PipeState.dropWriter]
      dsimp only
      split
      · -- The last writer wakes the reader.
        cases side with
        | reading => exact .inl (woken rfl)
        | writing => exact .inr ⟨parked, stuck⟩
      · next others =>
          cases side with
          | reading => exact .inr ⟨parked, fun goes => goes.elim (fun data => stuck (.inl data)) others⟩
          | writing => exact .inr ⟨parked, stuck⟩
    · exact same (by simp only [Piped.step, if_neg held])
  | read size =>
    by_cases empty : p.pipe.buf = []
    · exact same (by rw [read_pipe, PipeState.read, if_pos empty])
    · rw [read_pipe, PipeState.read, if_neg empty]
      cases side with
      | reading => exact absurd (.inl empty) stuck
      | writing => exact .inl (woken rfl)
  | checkWrite => exact same rfl
  | write bytes =>
    by_cases closed : p.pipe.readers = 0
    · exact same (by rw [write_pipe, PipeState.write, if_pos closed])
    · rw [write_pipe, PipeState.write, if_neg closed]
      cases side with
      | reading => exact .inl (woken rfl)
      | writing =>
        refine .inr ⟨parked, fun goes => goes.elim (fun room => stuck (.inl ?_)) closed⟩
        exact lt_of_le_of_lt (List.length_append ▸ Nat.le_add_right ..) room
  | pollReadable cx =>
    by_cases ready : p.pipe.Goes .reading
    · exact same (congrArg Prod.snd (if_pos ready))
    · rw [pollReadable_pipe ready]
      cases side with
      | reading =>
        cases parked.symm.trans (alone cx rfl)
        exact absurd rfl other
      | writing => exact .inr ⟨parked, stuck⟩
  | pollWritable cx =>
    by_cases ready : p.pipe.Goes .writing
    · exact same (congrArg Prod.snd (if_pos ready))
    · rw [pollWritable_pipe ready]
      cases side with
      | reading => exact .inr ⟨parked, stuck⟩
      | writing =>
        cases parked.symm.trans (alone cx rfl)
        exact absurd rfl other

/-- A poll that is pending parks its task, where it still could not go. -/
theorem poll_parks {p : Piped} {op : Op} {side : Side} {t : Waker} (polled : polls op = some (side, t))
    (stuck : ¬p.pipe.Goes side) : (p.step op).pipe.parked side = some t ∧ ¬(p.step op).pipe.Goes side := by
  cases op with
  | pollReadable cx =>
    cases polled
    rw [pollReadable_pipe stuck]
    exact ⟨rfl, stuck⟩
  | pollWritable cx =>
    cases polled
    rw [pollWritable_pipe stuck]
    exact ⟨rfl, stuck⟩
  | _ => cases polled

theorem Parked.step {q : Watched} {op : Op} (parked : q.Parked) (alone : q.Alone op) : (q.step op).Parked := by
  intro side t w waits
  simp only [Watched.step] at waits ⊢
  split at waits
  · next polled =>
      split at waits
      · cases waits
      · next stuck =>
          cases waits
          have left := poll_parks polled stuck
          exact .inr ⟨left.1, left.2, rfl⟩
  · next other =>
      obtain ⟨before, waited, rfl⟩ := Option.map_eq_some_iff.1 waits
      rcases parked side t before waited with woken | ⟨there, stuck, idle⟩
      · exact .inl (by rw [Wait.after, woken, Bool.true_or])
      · have mine : ∀ t', polls op = some (side, t') → q.piped.pipe.parked side = some t' := by
          intro t' polled
          rcases alone side t' polled with goes | empty | same
          · exact absurd goes stuck
          · rw [there] at empty
            cases empty
          · exact same
        rcases turn there stuck other mine with woken | ⟨still, stuck'⟩
        · exact .inl (by rw [Wait.after, woken, Bool.or_true])
        · refine .inr ⟨still, stuck', ?_⟩
          rw [Wait.after, idle, decide_eq_false stuck']
          rfl

/-- Where everyone who waits is woken or parked, whoever could have gone is woken. -/
theorem Parked.prompt {q : Watched} (parked : q.Parked) : q.Prompt := by
  intro side t w waits due
  rcases parked side t w waits with woken | ⟨_, _, idle⟩
  · exact woken
  · exact absurd (due.symm.trans idle) nofun

/-- **No lost wakeup** in a run in which no task parks where another one is parked. -/
theorem run_prompt {ops : List Op} (alone : Along step Alone {} ops) : (run ops).Prompt := by
  have parked : Parked (run ops) := alone.keeps (fun q op here kept => kept.step here)
    (fun _ _ _ none_waits => by cases none_waits)
  exact parked.prompt

section Poles

/-- A reader that parks, is woken by a write, and parks again. -/
def oneReader : List Op := [.reader, .writer, .pollReadable 0, .write [7], .read 8, .pollReadable 0, .dropWriter 1]

theorem run_prompt_one : (run oneReader).Prompt := by
  refine run_prompt ⟨?_, ?_, ?_, ?_, ?_, ?_, ?_, trivial⟩ <;> intro side t polled <;> cases polled
  · exact .inr (.inl rfl)
  · exact .inr (.inl rfl)

/-- Two readers wait, and a write wakes the second only. -/
theorem parked_over_sleeps : ¬(run [.reader, .writer, .pollReadable 0, .pollReadable 1, .write [7]]).Prompt := by
  intro prompt
  have slept := prompt .reading 0 { woken := false, due := true } (by decide) rfl
  cases slept

end Poles

end Watched

end Wk.ExecPipe
