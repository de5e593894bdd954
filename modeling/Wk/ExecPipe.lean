/-
# Wk.ExecPipe -- the pipe between two running programs

One byte buffer behind one lock.  Every operation of an end, and every creation and drop
of one, holds the lock from start to finish, so what any number of threads do to a pipe
is one list of operations.  `Piped` adds to the pipe what its users know and it does not:
which ends are held, and which bytes have gone in and out.

A stream lent by an end (`p2_stream`) is the same lock again and is not counted, so a
read or a write is not asked whose it is.
-/
import Wk.Protocol

namespace Wk.ExecPipe

set_option autoImplicit false

/-- How much a pipe buffers before the writer has to wait. -/
def PIPE_CAPACITY : Nat := 64 * 1024

inductive StreamError where
  | closed
  deriving DecidableEq, Repr

/-- `StreamResult`. -/
abbrev StreamResult (α : Type) := Except StreamError α

/-- A waker, known by who parked it. -/
abbrev Waker := Nat

structure PipeState where
  buf : Bytes := []
  /-- Ends still able to write.  EOF is "empty and none left". -/
  writers : Nat := 0
  /-- Ends still able to read. -/
  readers : Nat := 0
  readerWaker : Option Waker := none
  writerWaker : Option Waker := none
  deriving DecidableEq, Repr

namespace PipeState

def wakeReader (s : PipeState) : PipeState := { s with readerWaker := none }

def wakeWriter (s : PipeState) : PipeState := { s with writerWaker := none }

/-- `Pipe::reader`. -/
def reader (s : PipeState) : PipeState := { s with readers := s.readers + 1 }

/-- `Pipe::writer`. -/
def writer (s : PipeState) : PipeState := { s with writers := s.writers + 1 }

/-- `Drop` of a `PipeReader`: a writer blocked for room will never get it now. -/
def dropReader (s : PipeState) : PipeState := { s with readers := s.readers - 1 }.wakeWriter

/-- `Drop` of a `PipeWriter`: the last one closes the pipe. -/
def dropWriter (s : PipeState) : PipeState :=
  let s := { s with writers := s.writers - 1 }
  if s.writers = 0 then s.wakeReader else s

/-- `InputStream::read`: empty with a writer still around is "not yet". -/
def read (s : PipeState) (size : Nat) : StreamResult Bytes × PipeState :=
  if s.buf = [] then
    (if s.writers = 0 then .error .closed else .ok [], s)
  else
    let n := min size s.buf.length
    (.ok (s.buf.take n), { s with buf := s.buf.drop n }.wakeWriter)

/-- `OutputStream::check_write`: how much room is left. -/
def checkWrite (s : PipeState) : StreamResult Nat :=
  if s.readers = 0 then .error .closed else .ok (PIPE_CAPACITY - s.buf.length)

/-- `OutputStream::write`: room is not asked for again. -/
def write (s : PipeState) (bytes : Bytes) : StreamResult Unit × PipeState :=
  if s.readers = 0 then (.error .closed, s)
  else (.ok (), { s with buf := s.buf ++ bytes }.wakeReader)

/-- `Readable::poll`: whether it is ready; if not, the waker is parked. -/
def pollReadable (s : PipeState) (cx : Waker) : Bool × PipeState :=
  if s.buf ≠ [] ∨ s.writers = 0 then (true, s) else (false, { s with readerWaker := some cx })

/-- `Writable::poll`. -/
def pollWritable (s : PipeState) (cx : Waker) : Bool × PipeState :=
  if s.buf.length < PIPE_CAPACITY ∨ s.readers = 0 then (true, s)
  else (false, { s with writerWaker := some cx })

variable (s : PipeState)

/-- A read ends the stream exactly when nothing is buffered and no end can write. -/
theorem read_closed_iff (size : Nat) : (s.read size).1 = .error .closed ↔ s.buf = [] ∧ s.writers = 0 := by
  unfold read
  by_cases empty : s.buf = [] <;> by_cases none_left : s.writers = 0 <;> simp [empty, none_left]

theorem write_closed_iff (bytes : Bytes) : (s.write bytes).1 = .error .closed ↔ s.readers = 0 := by
  unfold write
  by_cases none_left : s.readers = 0 <;> simp [none_left]

theorem checkWrite_closed_iff : s.checkWrite = .error .closed ↔ s.readers = 0 := by
  unfold checkWrite
  by_cases none_left : s.readers = 0 <;> simp [none_left]

end PipeState

/-! ## A pipe and its users -/

/-- An end, told apart from all others of its pipe. -/
abbrev EndId := Nat

/-- What is done to a pipe, by whichever thread. -/
inductive Op where
  | reader
  | writer
  | dropReader (r : EndId)
  | dropWriter (w : EndId)
  | read (size : Nat)
  | checkWrite
  | write (bytes : Bytes)
  | pollReadable (cx : Waker)
  | pollWritable (cx : Waker)
  deriving DecidableEq, Repr

/-- A pipe, the ends that are held, and the bytes that went through. -/
structure Piped where
  pipe : PipeState := {}
  readEnds : List EndId := []
  writeEnds : List EndId := []
  nextEnd : EndId := 0
  /-- The bytes of the writes that were accepted, in order. -/
  accepted : Bytes := []
  /-- The bytes that reads returned, in order. -/
  returned : Bytes := []
  deriving DecidableEq, Repr

namespace Piped

/-- One operation.  An end is dropped once, by whoever holds it. -/
def step (p : Piped) : Op → Piped
  | .reader =>
    { p with pipe := p.pipe.reader, readEnds := p.nextEnd :: p.readEnds, nextEnd := p.nextEnd + 1 }
  | .writer =>
    { p with pipe := p.pipe.writer, writeEnds := p.nextEnd :: p.writeEnds, nextEnd := p.nextEnd + 1 }
  | .dropReader r =>
    if r ∈ p.readEnds then { p with pipe := p.pipe.dropReader, readEnds := p.readEnds.erase r } else p
  | .dropWriter w =>
    if w ∈ p.writeEnds then { p with pipe := p.pipe.dropWriter, writeEnds := p.writeEnds.erase w } else p
  | .read size =>
    let (result, pipe) := p.pipe.read size
    match result with
    | .ok data => { p with pipe, returned := p.returned ++ data }
    | .error _ => { p with pipe }
  | .checkWrite => p
  | .write bytes =>
    let (result, pipe) := p.pipe.write bytes
    match result with
    | .ok _ => { p with pipe, accepted := p.accepted ++ bytes }
    | .error _ => { p with pipe }
  | .pollReadable cx => { p with pipe := (p.pipe.pollReadable cx).2 }
  | .pollWritable cx => { p with pipe := (p.pipe.pollWritable cx).2 }

/-- A new pipe and everything done to it. -/
def run (ops : List Op) : Piped := ops.foldl step {}

/-- The pipe counts its ends, and holds what has gone in and not come out. -/
structure Sound (p : Piped) : Prop where
  readers : p.pipe.readers = p.readEnds.length
  writers : p.pipe.writers = p.writeEnds.length
  bytes : p.returned ++ p.pipe.buf = p.accepted

variable {p : Piped}

theorem Sound.read (sound : p.Sound) (size : Nat) : (p.step (.read size)).Sound := by
  simp only [step, PipeState.read]
  by_cases empty : p.pipe.buf = []
  · by_cases none_left : p.pipe.writers = 0
    · simp only [empty, none_left, ↓reduceIte]
      exact sound
    · simp only [empty, none_left, ↓reduceIte]
      exact ⟨sound.readers, sound.writers, by simpa using sound.bytes⟩
  · simp only [empty, ↓reduceIte]
    refine ⟨sound.readers, sound.writers, ?_⟩
    rw [← sound.bytes, List.append_assoc]
    exact congrArg _ (List.take_append_drop ..)

theorem Sound.write (sound : p.Sound) (bytes : Bytes) : (p.step (.write bytes)).Sound := by
  simp only [step, PipeState.write]
  by_cases none_left : p.pipe.readers = 0
  · simp only [none_left, ↓reduceIte]
    exact sound
  · simp only [none_left, ↓reduceIte]
    refine ⟨sound.readers, sound.writers, ?_⟩
    rw [← sound.bytes, List.append_assoc]
    rfl

/-- **One operation** keeps the count of the ends and the bytes. -/
theorem Sound.step (sound : p.Sound) (op : Op) : (p.step op).Sound := by
  cases op with
  | reader => exact ⟨congrArg (· + 1) sound.readers, sound.writers, sound.bytes⟩
  | writer => exact ⟨sound.readers, congrArg (· + 1) sound.writers, sound.bytes⟩
  | dropReader r =>
    simp only [Piped.step]
    split
    · next held =>
        refine ⟨?_, sound.writers, sound.bytes⟩
        have fewer : p.pipe.readers - 1 = (p.readEnds.erase r).length := by
          rw [List.length_erase_of_mem held, sound.readers]
        exact fewer
    · exact sound
  | dropWriter w =>
    simp only [Piped.step]
    split
    · next held =>
        have fewer : p.pipe.writers - 1 = (p.writeEnds.erase w).length := by
          rw [List.length_erase_of_mem held, sound.writers]
        unfold PipeState.dropWriter
        dsimp only
        split <;> exact ⟨sound.readers, fewer, sound.bytes⟩
    · exact sound
  | read size => exact sound.read size
  | checkWrite => exact sound
  | write bytes => exact sound.write bytes
  | pollReadable cx =>
    simp only [Piped.step, PipeState.pollReadable]
    split <;> exact ⟨sound.readers, sound.writers, sound.bytes⟩
  | pollWritable cx =>
    simp only [Piped.step, PipeState.pollWritable]
    split <;> exact ⟨sound.readers, sound.writers, sound.bytes⟩

theorem run_counted (ops : List Op) : (run ops).Sound :=
  List.foldlRecOn (motive := Sound) ops step ⟨rfl, rfl, rfl⟩ fun _ sound op _ => sound.step op

/-- **The pipe is a lossless FIFO.** After any operations on a new pipe, what reads have
returned is the start of what writes were accepted, and all of it once the buffer is
drained; a read ends the stream only with no writer left and nothing buffered, and a
write is told "closed" only with no reader left. -/
theorem run_fifo (ops : List Op) :
    (run ops).returned <+: (run ops).accepted ∧
    ((run ops).pipe.buf = [] → (run ops).returned = (run ops).accepted) ∧
    (∀ size, ((run ops).pipe.read size).1 = .error .closed →
      (run ops).writeEnds = [] ∧ (run ops).pipe.buf = []) ∧
    (∀ bytes, ((run ops).pipe.write bytes).1 = .error .closed → (run ops).readEnds = []) ∧
    ((run ops).pipe.checkWrite = .error .closed → (run ops).readEnds = []) := by
  have sound := run_counted ops
  have no_writer : (run ops).pipe.writers = 0 → (run ops).writeEnds = [] := fun none_left =>
    List.length_eq_zero_iff.1 (sound.writers.symm.trans none_left)
  have no_reader : (run ops).pipe.readers = 0 → (run ops).readEnds = [] := fun none_left =>
    List.length_eq_zero_iff.1 (sound.readers.symm.trans none_left)
  refine ⟨⟨_, sound.bytes⟩, fun drained => ?_, fun size ended => ?_, fun bytes closed => ?_, fun closed => ?_⟩
  · rw [← sound.bytes, drained, List.append_nil]
  · obtain ⟨empty, none_left⟩ := (PipeState.read_closed_iff _ size).1 ended
    exact ⟨no_writer none_left, empty⟩
  · exact no_reader ((PipeState.write_closed_iff _ bytes).1 closed)
  · exact no_reader ((PipeState.checkWrite_closed_iff _).1 closed)

end Piped

end Wk.ExecPipe
