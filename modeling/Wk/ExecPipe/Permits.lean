/-
# Wk.ExecPipe.Permits -- room that is promised and room that is there

A writer asks how much room there is, and writes at most that much before it asks again.
The answer is worked out from the buffer and nothing is set aside for it, so writers that
ask before any of them writes are all promised the same room.

* `permit_stands_iff`: a writer's promise is good for all it may still write exactly when
  the others have written no more since than has been read.
* `run_bounded`: where every writer that writes has such a promise, the pipe stays bounded.
* `promised_twice`: two writers that are promised the whole pipe fill it twice.
-/
import Wk.ExecPipe
import Wk.Library.Run

namespace Wk.ExecPipe

set_option autoImplicit false

open Library (Along)

/-- A writer's most recent `check_write`, and what went through the pipe since. -/
structure Account where
  permit : Nat
  own : Nat := 0
  others : Nat := 0
  drained : Nat := 0
  deriving DecidableEq, Repr

/-- What is done to a pipe, with who checks and who writes. -/
inductive Act where
  | check (w : EndId)
  | write (w : EndId) (bytes : Bytes)
  | read (size : Nat)
  | reader
  | writer
  | dropReader (r : EndId)
  | dropWriter (w : EndId)
  deriving DecidableEq, Repr

/-- The same without its writer. -/
def Act.op : Act → Op
  | .check _ => .checkWrite
  | .write _ bytes => .write bytes
  | .read size => .read size
  | .reader => .reader
  | .writer => .writer
  | .dropReader r => .dropReader r
  | .dropWriter w => .dropWriter w

/-- A pipe and the accounts of its writers. -/
structure Promised where
  piped : Piped := {}
  accounts : EndId → Option Account := fun _ => none

namespace Promised

/-- An account after bytes of another writer, of its own, or after a read. -/
def Account.wrote (bytes : Nat) (mine : Bool) (a : Account) : Account :=
  if mine then { a with own := a.own + bytes } else { a with others := a.others + bytes }

/-- The accounts after an act: a check opens its writer's anew, writes that are accepted
and reads are put down in all of them. -/
def account (q : Promised) (w : EndId) : Act → Option Account
  | .check w' =>
    if w = w' then q.piped.pipe.checkWrite.toOption.map fun permit => { permit } else q.accounts w
  | .write w' bytes =>
    if q.piped.pipe.readers = 0 then q.accounts w
    else (q.accounts w).map (Account.wrote bytes.length (w = w'))
  | .read size =>
    (q.accounts w).map fun a =>
      { a with drained := a.drained + (min size q.piped.pipe.buf.length) }
  | _ => q.accounts w

def step (q : Promised) (act : Act) : Promised where
  piped := q.piped.step act.op
  accounts w := q.account w act

def run (acts : List Act) : Promised := acts.foldl step {}

/-- A writer keeps to its permit: what it writes since its last check is at most that. -/
def Kept (q : Promised) : Act → Prop
  | .write w bytes => ∃ a, q.accounts w = some a ∧ a.own + bytes.length ≤ a.permit
  | _ => True

/-- A writer that writes still has its promise: since its last check the other writers
have written no more than has been read. -/
def Standing (q : Promised) : Act → Prop
  | .write w _ => ∀ a, q.accounts w = some a → a.others ≤ a.drained
  | _ => True

/-- The pipe holds what it held at each check, and what went through since. -/
structure Balanced (q : Promised) : Prop where
  bounded : q.piped.pipe.buf.length ≤ PIPE_CAPACITY
  permit : ∀ w a, q.accounts w = some a → a.permit ≤ PIPE_CAPACITY ∧
    q.piped.pipe.buf.length + a.drained + a.permit = PIPE_CAPACITY + a.own + a.others

/-! ## What is buffered -/

theorem read_length (p : Piped) (size : Nat) :
    (p.step (.read size)).pipe.buf.length + min size p.pipe.buf.length = p.pipe.buf.length := by
  simp only [Piped.step, PipeState.read]
  by_cases empty : p.pipe.buf = []
  · by_cases none_left : p.pipe.writers = 0 <;> simp [empty, none_left]
  · simp only [if_neg empty, PipeState.wakeWriter, List.length_drop]
    omega

theorem write_length (p : Piped) (bytes : Bytes) : (p.step (.write bytes)).pipe.buf.length =
    if p.pipe.readers = 0 then p.pipe.buf.length else p.pipe.buf.length + bytes.length := by
  simp only [Piped.step, PipeState.write]
  by_cases closed : p.pipe.readers = 0
  · simp [closed]
  · simp [closed, PipeState.wakeReader]

/-- A check by a writer counts from what is buffered then. -/
theorem check_account {q : Promised} {w w' : EndId} {a : Account} (balanced : q.Balanced)
    (found : q.account w (.check w') = some a) : a.permit ≤ PIPE_CAPACITY ∧
      q.piped.pipe.buf.length + a.drained + a.permit = PIPE_CAPACITY + a.own + a.others := by
  simp only [account] at found
  split at found
  · obtain ⟨permit, answer, rfl⟩ := Option.map_eq_some_iff.1 found
    unfold PipeState.checkWrite at answer
    split at answer
    · cases answer
    · cases answer
      have bounded := balanced.bounded
      dsimp only
      omega
  · exact balanced.permit w a found

theorem dropReader_buf (p : Piped) (r : EndId) : (p.step (.dropReader r)).pipe.buf = p.pipe.buf := by
  simp only [Piped.step]
  split <;> rfl

theorem dropWriter_buf (p : Piped) (w : EndId) : (p.step (.dropWriter w)).pipe.buf = p.pipe.buf := by
  simp only [Piped.step, PipeState.dropWriter]
  split
  · dsimp only
    split <;> rfl
  · rfl

theorem Balanced.idle {q q' : Promised} (balanced : q.Balanced) (buf : q'.piped.pipe.buf = q.piped.pipe.buf)
    (accounts : ∀ w, q'.accounts w = q.accounts w) : q'.Balanced where
  bounded := by
    rw [buf]
    exact balanced.bounded
  permit w a found := by
    rw [accounts] at found
    rw [buf]
    exact balanced.permit w a found

/-- **One act** that keeps to its permit, while its promise stands, keeps the balance. -/
theorem Balanced.step {q : Promised} {act : Act} (balanced : q.Balanced) (kept : q.Kept act)
    (standing : q.Standing act) : (q.step act).Balanced := by
  cases act with
  | check w' => exact ⟨balanced.bounded, fun w a found => @check_account q w w' a balanced found⟩
  | write w' bytes =>
    have length := write_length q.piped bytes
    obtain ⟨a', mine, small⟩ := kept
    have before := balanced.permit w' a' mine
    have stands := standing a' mine
    have bounded := balanced.bounded
    by_cases closed : q.piped.pipe.readers = 0
    · rw [if_pos closed] at length
      refine ⟨length.trans_le bounded, fun w a found => ?_⟩
      simp only [Promised.step, account, if_pos closed] at found
      have balance := balanced.permit w a found
      exact ⟨balance.1, (congrArg (· + a.drained + a.permit) length).trans balance.2⟩
    · rw [if_neg closed] at length
      refine ⟨?_, fun w a found => ?_⟩
      · change (q.piped.step (.write bytes)).pipe.buf.length ≤ PIPE_CAPACITY
        omega
      · simp only [Promised.step, account, if_neg closed] at found
        obtain ⟨old, was, rfl⟩ := Option.map_eq_some_iff.1 found
        have balance := balanced.permit w old was
        change _ ∧ (q.piped.step (.write bytes)).pipe.buf.length + _ + _ = _
        unfold Account.wrote
        split <;> exact ⟨balance.1, by dsimp only; omega⟩
  | read size =>
    have length := read_length q.piped size
    have bounded := balanced.bounded
    refine ⟨?_, fun w a found => ?_⟩
    · change (q.piped.step (.read size)).pipe.buf.length ≤ PIPE_CAPACITY
      omega
    · simp only [Promised.step, account] at found
      obtain ⟨old, was, rfl⟩ := Option.map_eq_some_iff.1 found
      have balance := balanced.permit w old was
      change _ ∧ (q.piped.step (.read size)).pipe.buf.length + _ + _ = _
      exact ⟨balance.1, by dsimp only; omega⟩
  | reader => exact ⟨balanced.bounded, balanced.permit⟩
  | writer => exact ⟨balanced.bounded, balanced.permit⟩
  | dropReader r => exact balanced.idle (dropReader_buf q.piped r) fun _ => rfl
  | dropWriter w => exact balanced.idle (dropWriter_buf q.piped w) fun _ => rfl

/-- **What a writer is still promised is there** exactly when the others have written no
more since its check than has been read. -/
theorem permit_stands_iff {q : Promised} {w : EndId} {a : Account} (balanced : q.Balanced)
    (found : q.accounts w = some a) (kept : a.own ≤ a.permit) :
    (∀ n, a.own + n ≤ a.permit → q.piped.pipe.buf.length + n ≤ PIPE_CAPACITY) ↔ a.others ≤ a.drained := by
  have balance := (balanced.permit w a found).2
  constructor
  · intro room
    have all := room (a.permit - a.own) (by omega)
    omega
  · intro stands n small
    omega

/-- **The pipe stays bounded** in a run whose writers keep to their permits, and have their
promises when they write. -/
theorem run_bounded {acts : List Act} (kept : Along step (fun q act => q.Kept act ∧ q.Standing act) {} acts) :
    (run acts).piped.pipe.buf.length ≤ PIPE_CAPACITY := by
  have start : Balanced {} := ⟨Nat.zero_le _, fun _ _ none_found => by cases none_found⟩
  have balanced : Balanced (run acts) := kept.keeps (fun q act here balance => balance.step here.1 here.2) start
  exact balanced.bounded

section Poles

/-- A writer that checks and writes, then another, with a read in between. -/
def inTurns : List Act :=
  [.reader, .writer, .writer, .check 1, .write 1 [7, 7], .check 2, .write 2 [8], .read 1, .write 1 [9]]

theorem run_bounded_in_turns : (run inTurns).piped.pipe.buf.length ≤ PIPE_CAPACITY := by
  refine run_bounded ⟨⟨trivial, trivial⟩, ⟨trivial, trivial⟩, ⟨trivial, trivial⟩, ⟨trivial, trivial⟩, ⟨?_, ?_⟩,
    ⟨trivial, trivial⟩, ⟨?_, ?_⟩, ⟨trivial, trivial⟩, ⟨?_, ?_⟩, trivial⟩
  · exact ⟨_, rfl, by decide⟩
  · exact fun a found => by cases found; decide
  · exact ⟨_, rfl, by decide⟩
  · exact fun a found => by cases found; decide
  · exact ⟨_, rfl, by decide⟩
  · exact fun a found => by cases found; decide

/-- Two writers check before either writes, and each writes what it was permitted. -/
def twoWriters (bytes : Bytes) : List Act :=
  [.reader, .writer, .writer, .check 1, .check 2, .write 1 bytes, .write 2 bytes]

/-- Both keep to their permits, and both pieces are buffered. -/
theorem two_writers {bytes : Bytes} (fits : bytes.length ≤ PIPE_CAPACITY) :
    Along step Kept {} (twoWriters bytes) ∧
      (run (twoWriters bytes)).piped.pipe.buf.length = bytes.length + bytes.length := by
  refine ⟨⟨trivial, trivial, trivial, trivial, trivial, ⟨_, rfl, ?_⟩, ⟨_, rfl, ?_⟩, trivial⟩, ?_⟩
  · change 0 + bytes.length ≤ PIPE_CAPACITY - 0
    omega
  · change 0 + bytes.length ≤ PIPE_CAPACITY - 0
    omega
  · change ([] ++ bytes ++ bytes : Bytes).length = _
    rw [List.nil_append, List.length_append]

theorem promised_twice :
    Along step Kept {} (twoWriters (List.replicate PIPE_CAPACITY 0)) ∧
      PIPE_CAPACITY < (run (twoWriters (List.replicate PIPE_CAPACITY 0))).piped.pipe.buf.length := by
  have size : (List.replicate PIPE_CAPACITY (0 : UInt8)).length = PIPE_CAPACITY := List.length_replicate
  have both := two_writers size.le
  refine ⟨both.1, ?_⟩
  rw [both.2, size]
  decide

end Poles

end Promised

end Wk.ExecPipe
