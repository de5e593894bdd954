/-
# Wk.Tty -- a terminal node's streams

A terminal node's guest reads and writes a pair of byte queues: a client feeds the one from the
keyboard and drains the other into a VT parser, whose replies go back to the guest.  The guest
sets the line mode; in canonical mode the client edits a line and feeds it on Enter.

* `TermIo.Clean`: what a guest reads was fed to it, and all it is answered depends on calls made
  since it started.
* `clean_iff`: a stream is clean after a reopen exactly where nothing unread is left and the mode
  is canonical.
* `Terminal.Agree`: the keystrokes of a split are those of the whole, none of an escape sequence.
* `agree_iff`: every split of a string agrees exactly where the string has no escape sequence; any
  string's split agrees where no chunk ends within one.

Poles: `secret_left` (unread input, and raw mode, reach the next guest), `arrow_typed` (an arrow key
in two chunks).
-/
import Wk.Protocol
import Mathlib

namespace Wk.Tty

set_option autoImplicit false

/-! ## The streams -/

/-- The line-discipline mode.  A fresh terminal is cooked. -/
structure TtyMode where
  echo : Bool := true
  canonical : Bool := true
  deriving DecidableEq, Repr

/-- A parked waker, of one of the guests that a node has run. -/
structure Waker where
  guest : Nat
  task : Nat
  deriving DecidableEq, Repr

structure InpState where
  buf : Bytes := []
  waker : Option Waker := none
  closed : Bool := false
  deriving DecidableEq, Repr

/-- Largest amount of output the log retains. -/
def logCap : Nat := 256 * 1024

/-- Where the output backlog stops taking more. -/
def outCap : Nat := 4 * 2 ^ 20

/-- The last bytes of the output, and how many there have been. -/
structure LogRing where
  data : Bytes := []
  total : Nat := 0
  deriving DecidableEq, Repr

def LogRing.push (r : LogRing) (b : Bytes) : LogRing where
  data := (r.data ++ b).drop ((r.data ++ b).length - logCap)
  total := r.total + b.length

/-- A guest's stdio, shared with the client. -/
structure TermIo where
  out : Bytes := []
  log : LogRing := {}
  /-- The output processing a guest has declared, if it has. -/
  outNl : Option Bool := none
  inp : InpState := {}
  tty : TtyMode := {}
  -- ghost
  /-- The guest that runs. -/
  guest : Nat := 0
  deriving DecidableEq, Repr

namespace TermIo

variable (io : TermIo)

def isRaw : Bool := !io.tty.canonical

def setTty (echo canonical : Bool) : TermIo := { io with tty := { echo, canonical } }

def setOutputNl (nl : Bool) : TermIo := { io with outNl := some nl }

/-- Output as the mode in effect has it: a newline is a carriage return and a newline. -/
def translated (b : Bytes) : Bytes :=
  if io.outNl.getD !io.isRaw then b.flatMap fun c => if c = 0x0a then [0x0d, c] else [c] else b

def writeOut (b : Bytes) : TermIo :=
  { io with
    out := if io.out.length < outCap then io.out ++ io.translated b else io.out
    log := io.log.push (io.translated b) }

/-- Whom a wake reaches among the tasks of the guest that runs. -/
def woken : Option Nat := (io.inp.waker.filter fun w => w.guest = io.guest).map Waker.task

/-- Deliver bytes to stdin. -/
def feedIn (b : Bytes) : TermIo := { io with inp := { io.inp with buf := io.inp.buf ++ b, waker := none } }

/-- Close stdin. -/
def close : TermIo := { io with inp := { io.inp with closed := true, waker := none } }

/-- Open stdin again for the next guest. -/
def reopen : TermIo := { io with inp := { io.inp with closed := false }, outNl := none, guest := io.guest + 1 }

def read (size : Nat) : TermIo × Except Unit Bytes :=
  if io.inp.buf = [] then (io, if io.inp.closed then .error () else .ok [])
  else ({ io with inp := { io.inp with buf := io.inp.buf.drop size } }, .ok (io.inp.buf.take size))

/-- A poll of stdin, which parks while there is nothing. -/
def poll (task : Nat) : TermIo × Bool :=
  if io.inp.buf ≠ [] ∨ io.inp.closed = true then (io, true)
  else ({ io with inp := { io.inp with waker := some { guest := io.guest, task } } }, false)

end TermIo

/-- A call on the streams; a parser's reply is fed like keystrokes. -/
inductive Call where
  | feedIn (b : Bytes)
  | setTty (echo canonical : Bool)
  | setOutputNl (nl : Bool)
  | writeOut (b : Bytes)
  | isRaw
  | read (size : Nat)
  | poll (task : Nat)
  | close
  | reopen
  deriving DecidableEq, Repr

/-- What a call is answered, or does to the guest. -/
inductive Answer where
  | done
  | woke (task : Option Nat)
  | wrote (b : Bytes)
  | raw (b : Bool)
  | read (b : Bytes)
  | eof
  | ready (b : Bool)
  deriving DecidableEq, Repr

namespace TermIo

variable (io : TermIo)

def step : Call → TermIo × Answer
  | .feedIn b => (io.feedIn b, .woke io.woken)
  | .setTty echo canonical => (io.setTty echo canonical, .done)
  | .setOutputNl nl => (io.setOutputNl nl, .done)
  | .writeOut b => (io.writeOut b, .wrote (io.translated b))
  | .isRaw => (io, .raw io.isRaw)
  | .read size =>
    ((io.read size).1,
      match (io.read size).2 with
      | .ok b => .read b
      | .error _ => .eof)
  | .poll task => ((io.poll task).1, .ready (io.poll task).2)
  | .close => (io.close, .woke io.woken)
  | .reopen => (io.reopen, .done)

def run (calls : List Call) : TermIo := calls.foldl (fun io c => (io.step c).1) io

/-- What the calls are answered, in order. -/
def answers : TermIo → List Call → List Answer
  | _, [] => []
  | io, c :: calls => (io.step c).2 :: answers (io.step c).1 calls

end TermIo

/-- The bytes that calls feed to stdin. -/
def fed (calls : List Call) : Bytes := calls.flatMap fun
  | .feedIn b => b
  | _ => []

/-- The bytes that answers give from stdin. -/
def received (answers : List Answer) : Bytes := answers.flatMap fun
  | .read b => b
  | _ => []

/-- What is read is what is fed from here on, and every answer depends only on calls from here on. -/
structure TermIo.Clean (io : TermIo) : Prop where
  stdin : ∀ calls, received (io.answers calls) ++ (io.run calls).inp.buf = fed calls
  answered : ∀ calls, io.answers calls = ({} : TermIo).answers calls

/-! ## Two guests -/

namespace TermIo

variable {io io' : TermIo}

/-- Streams that a guest cannot tell apart. -/
structure Alike (io io' : TermIo) : Prop where
  buf : io.inp.buf = io'.inp.buf
  closed : io.inp.closed = io'.inp.closed
  outNl : io.outNl = io'.outNl
  canonical : io.tty.canonical = io'.tty.canonical
  woken : io.woken = io'.woken

/-- No waker is of a guest to come. -/
def Parked (io : TermIo) : Prop := ∀ w, io.inp.waker = some w → w.guest ≤ io.guest

theorem Parked.step (parked : io.Parked) (c : Call) : (io.step c).1.Parked := by
  cases c with
  | read size =>
    simp only [TermIo.step, read]
    split <;> exact parked
  | poll task =>
    simp only [TermIo.step, poll]
    split
    · exact parked
    · intro w same
      cases same
      exact le_rfl
  | reopen => exact fun w same => (parked w same).trans (Nat.le_succ _)
  | feedIn b => exact nofun
  | close => exact nofun
  | _ => exact parked

theorem Parked.run : ∀ (calls : List Call) {io : TermIo}, io.Parked → (io.run calls).Parked
  | [], _, parked => parked
  | c :: calls, _, parked => Parked.run calls (parked.step c)

/-- After a reopen, nobody of the new guest is parked. -/
theorem Parked.reopen (parked : io.Parked) : io.reopen.woken = none := by
  simp only [woken, TermIo.reopen, Option.map_eq_none_iff, Option.filter_eq_none_iff, Bool.not_eq_true]
  intro w same
  have older := parked w same
  exact decide_eq_false (Nat.lt_succ_of_le older).ne

/-- Guests that cannot tell two streams apart are answered the same by them, and cannot tell them apart then. -/
theorem Alike.step (alike : Alike io io') (parked : io.Parked) (parked' : io'.Parked) (c : Call) :
    (io.step c).2 = (io'.step c).2 ∧ Alike (io.step c).1 (io'.step c).1 := by
  obtain ⟨buf, closed, outNl, canonical, woken⟩ := alike
  cases c with
  | feedIn b => exact ⟨congrArg Answer.woke woken, by simp [TermIo.step, feedIn, buf], closed, outNl, canonical, rfl⟩
  | setTty echo canonical => exact ⟨rfl, buf, closed, outNl, rfl, woken⟩
  | setOutputNl nl => exact ⟨rfl, buf, closed, rfl, canonical, woken⟩
  | writeOut b =>
    have same : io.translated b = io'.translated b := by rw [translated, translated, isRaw, isRaw, outNl, canonical]
    exact ⟨congrArg Answer.wrote same, buf, closed, outNl, canonical, woken⟩
  | isRaw => exact ⟨by simp only [TermIo.step, isRaw, canonical], buf, closed, outNl, canonical, woken⟩
  | read size =>
    by_cases none' : io.inp.buf = []
    · simp only [TermIo.step, read, if_pos none', if_pos (buf ▸ none'), closed]
      exact ⟨trivial, buf, closed, outNl, canonical, woken⟩
    · simp only [TermIo.step, read, if_neg (buf ▸ none'), buf]
      exact ⟨trivial, rfl, closed, outNl, canonical, woken⟩
  | poll task =>
    by_cases ready : io.inp.buf ≠ [] ∨ io.inp.closed = true
    · simp only [TermIo.step, poll, if_pos ready, if_pos (buf ▸ closed ▸ ready)]
      exact ⟨trivial, buf, closed, outNl, canonical, woken⟩
    · simp only [TermIo.step, poll, if_neg ready, if_neg (buf ▸ closed ▸ ready)]
      exact ⟨trivial, buf, closed, outNl, canonical, by simp [TermIo.woken, Option.filter]⟩
  | close => exact ⟨congrArg Answer.woke woken, buf, rfl, outNl, canonical, rfl⟩
  | reopen => exact ⟨rfl, buf, rfl, rfl, canonical, parked.reopen.trans parked'.reopen.symm⟩

theorem Alike.answers : ∀ (calls : List Call) {io io' : TermIo}, Alike io io' → io.Parked → io'.Parked →
    io.answers calls = io'.answers calls
  | [], _, _, _, _, _ => rfl
  | c :: calls, _, _, alike, parked, parked' => by
    obtain ⟨same, next⟩ := alike.step parked parked' c
    simp only [TermIo.answers, same, Alike.answers calls next (parked.step c) (parked'.step c)]

/-- Reads take from stdin what was fed, in order. -/
theorem stdin_split (c : Call) : received [(io.step c).2] ++ (io.step c).1.inp.buf = io.inp.buf ++ fed [c] := by
  cases c with
  | read size =>
    by_cases none' : io.inp.buf = []
    · simp only [TermIo.step, read, if_pos none']
      cases io.inp.closed <;> simp [received, fed]
    · simp [TermIo.step, read, if_neg none', received, fed]
  | poll task =>
    simp only [TermIo.step, poll]
    split <;> simp [received, fed]
  | _ => simp [TermIo.step, received, fed, feedIn, setTty, setOutputNl, writeOut, close, reopen]

theorem stdin_run : ∀ (calls : List Call) (io : TermIo), received (io.answers calls) ++ (io.run calls).inp.buf = io.inp.buf ++ fed calls
  | [], io => by simp [TermIo.answers, run, received, fed]
  | c :: calls, io => by
    have first := io.stdin_split c
    have rest := stdin_run calls (io.step c).1
    have cons : received (io.answers (c :: calls)) = received [(io.step c).2] ++ received ((io.step c).1.answers calls) := by
      simp [TermIo.answers, received]
    have fed_cons : fed (c :: calls) = fed [c] ++ fed calls := by simp [fed]
    calc received (io.answers (c :: calls)) ++ (io.run (c :: calls)).inp.buf
        = received [(io.step c).2] ++ (received ((io.step c).1.answers calls) ++ ((io.step c).1.run calls).inp.buf) := by
          rw [cons, List.append_assoc]
          rfl
      _ = (received [(io.step c).2] ++ (io.step c).1.inp.buf) ++ fed calls := by rw [rest, List.append_assoc]
      _ = io.inp.buf ++ fed (c :: calls) := by rw [first, fed_cons, List.append_assoc]

/-- A guest starts from a clean stream exactly where nothing unread is left, and the mode is canonical. -/
theorem clean_iff (before : List Call) : (run {} before).reopen.Clean ↔
    (run {} before).inp.buf = [] ∧ (run {} before).tty.canonical = true := by
  have parked : (run {} before).Parked := Parked.run before nofun
  constructor
  · intro clean
    have stdin := clean.stdin []
    have mode := clean.answered [.isRaw]
    refine ⟨by simpa [TermIo.answers, received, fed, run, reopen] using stdin, ?_⟩
    simpa [TermIo.answers, TermIo.step, isRaw, reopen] using mode
  · rintro ⟨buf, canonical⟩
    refine ⟨fun calls => ?_, fun calls => ?_⟩
    · rw [stdin_run]
      show (run {} before).inp.buf ++ fed calls = fed calls
      rw [buf, List.nil_append]
    · exact Alike.answers calls ⟨buf, rfl, rfl, canonical, parked.reopen⟩ ((parked.step .reopen)) nofun

end TermIo

/-! ## Cooked input -/

/-- A terminal: its VT grid, the line being edited, and the guest's stdio. -/
structure Terminal (G : Type) where
  grid : G
  line : Bytes := []
  io : TermIo := {}
  -- ghost
  /-- The echo bytes fed to the grid. -/
  echoed : Bytes := []

/-- Where the loop over the keystrokes is: between keys, at the bracket of an escape sequence, or
within one. -/
inductive Scan where
  | text | bracket | csi
  deriving DecidableEq, Repr

/-- The last byte of an escape sequence. -/
def final (b : UInt8) : Bool := 0x40 ≤ b && b ≤ 0x7e

section Keys

variable {G : Type} (advance : G → Bytes → G × List Bytes)

namespace Terminal

variable (t : Terminal G)

/-- Bytes go through the VT parser, which may reply. -/
def feed (b : Bytes) : Terminal G :=
  { t with
    grid := (advance t.grid b).1
    io := (advance t.grid b).2.foldl TermIo.feedIn t.io
    echoed := t.echoed ++ b }

/-- One key of the cooked line discipline. -/
def press (echo : Bool) (b : UInt8) : Terminal G :=
  if b = 0x0d ∨ b = 0x0a then
    let t := t.feed advance [0x0d, 0x0a]
    { t with io := t.io.feedIn (t.line ++ [0x0a]), line := [] }
  else if (b = 0x7f ∨ b = 0x08) ∧ t.line ≠ [] then
    let t := { t with line := t.line.dropLast }
    if echo then t.feed advance [0x08, 0x20, 0x08] else t
  else if b = 0x03 then { t with line := [] }.feed advance [0x5e, 0x43, 0x0d, 0x0a]
  else if b = 0x04 ∧ t.line = [] then { t with io := t.io.close }
  else if 0x20 ≤ b ∧ b ≤ 0x7e then
    let t := { t with line := t.line ++ [b] }
    if echo then t.feed advance [b] else t
  else t

/-- The loop over the keystrokes; the bytes of an escape sequence are swallowed. -/
def keyLoop (echo : Bool) : Scan → Bytes → Terminal G → Terminal G
  | _, [], t => t
  | .bracket, _ :: rest, t => keyLoop echo .csi rest t
  | .csi, b :: rest, t => keyLoop echo (if final b then .text else .csi) rest t
  | .text, b :: rest, t =>
    if b = 0x1b ∧ rest.head? = some 0x5b then keyLoop echo .bracket rest t
    else keyLoop echo .text rest (t.press advance echo b)

def keyInput (bytes : Bytes) : Terminal G := keyLoop advance t.io.tty.echo .text bytes t

end Terminal

end Keys

/-- The bytes of a string that are not of an escape sequence. -/
def typed : Scan → Bytes → Bytes
  | _, [] => []
  | .bracket, _ :: rest => typed .csi rest
  | .csi, b :: rest => typed (if final b then .text else .csi) rest
  | .text, b :: rest => if b = 0x1b ∧ rest.head? = some 0x5b then typed .bracket rest else b :: typed .text rest

/-- Where the scan is after a string. -/
def scanned : Scan → Bytes → Scan
  | s, [] => s
  | .bracket, _ :: rest => scanned .csi rest
  | .csi, b :: rest => scanned (if final b then .text else .csi) rest
  | .text, b :: rest => scanned (if b = 0x1b ∧ rest.head? = some 0x5b then .bracket else .text) rest

/-- No escape sequence goes on from one string into the next. -/
def Ends (s : Scan) (chunk rest : Bytes) : Prop :=
  rest = [] ∨ scanned s chunk = .text ∧ (chunk.getLast? = some 0x1b → rest.head? ≠ some 0x5b)

/-- No escape sequence is broken between two chunks. -/
def Unbroken : List Bytes → Prop
  | [] => True
  | chunk :: chunks => Ends .text chunk chunks.flatten ∧ Unbroken chunks

/-- The keystrokes of a split do what those of the whole do, which is what its bytes outside of
escape sequences do. -/
def Agree {G : Type} (advance : G → Bytes → G × List Bytes) (chunks : List Bytes) : Prop :=
  ∀ t : Terminal G, chunks.foldl (Terminal.keyInput advance) t = t.keyInput advance chunks.flatten ∧
    t.keyInput advance chunks.flatten = (typed .text chunks.flatten).foldl (fun t b => t.press advance t.io.tty.echo b) t

section Agreeing

variable {G : Type} {advance : G → Bytes → G × List Bytes}

namespace Terminal

/-- A key, under the echo mode in effect. -/
def tap (advance : G → Bytes → G × List Bytes) (t : Terminal G) (b : UInt8) : Terminal G := t.press advance t.io.tty.echo b

@[simp] theorem feed_tty (t : Terminal G) (b : Bytes) : (t.feed advance b).io.tty = t.io.tty := by
  have replies : ∀ (l : List Bytes) (io : TermIo), (l.foldl TermIo.feedIn io).tty = io.tty := by
    intro l
    induction l with
    | nil => exact fun _ => rfl
    | cons b l ih => exact fun io => ih (io.feedIn b)
  exact replies ..

@[simp] theorem press_tty (t : Terminal G) (echo : Bool) (b : UInt8) : (t.press advance echo b).io.tty = t.io.tty := by
  simp only [press]
  split
  · exact feed_tty t _
  · split
    · split
      · exact feed_tty _ _
      · rfl
    · split
      · exact feed_tty _ _
      · split
        · rfl
        · split
          · split
            · exact feed_tty _ _
            · rfl
          · rfl

/-- What the loop does, the bytes outside of escape sequences do. -/
theorem keyLoop_typed {echo : Bool} : ∀ (bytes : Bytes) (s : Scan) (t : Terminal G),
    t.io.tty.echo = echo → keyLoop advance echo s bytes t = (typed s bytes).foldl (tap advance) t
  | [], s, t, _ => by cases s <;> rfl
  | b :: rest, s, t, mode => by
    cases s with
    | bracket => exact keyLoop_typed rest .csi t mode
    | csi => exact keyLoop_typed rest _ t mode
    | text =>
      simp only [keyLoop, typed]
      split
      · exact keyLoop_typed rest .bracket t mode
      · rw [List.foldl_cons, keyLoop_typed rest .text _ (by rw [press_tty, mode]), tap, mode]

theorem keyInput_typed (t : Terminal G) (bytes : Bytes) : t.keyInput advance bytes = (typed .text bytes).foldl (tap advance) t :=
  keyLoop_typed bytes .text t rfl

theorem keyInput_chunks : ∀ (chunks : List Bytes) (t : Terminal G),
    chunks.foldl (keyInput advance) t = (chunks.flatMap (typed .text)).foldl (tap advance) t
  | [], _ => rfl
  | chunk :: chunks, t => by
    rw [List.foldl_cons, keyInput_chunks chunks, keyInput_typed, List.flatMap_cons, List.foldl_append]

end Terminal

/-- The scan of a string goes on where no escape sequence does. -/
theorem typed_append {rest : Bytes} : ∀ (chunk : Bytes) (s : Scan), rest ≠ [] → scanned s chunk = .text →
    (chunk.getLast? = some 0x1b → rest.head? ≠ some 0x5b) → typed s (chunk ++ rest) = typed s chunk ++ typed .text rest
  | [], s, _, text, _ => by
    have same : s = .text := by cases s <;> exact text
    subst same
    rfl
  | b :: chunk, s, some', text, last => by
    have last' : chunk.getLast? = some 0x1b → rest.head? ≠ some 0x5b := by
      cases chunk with
      | nil => exact nofun
      | cons c chunk => simpa using last
    cases s with
    | bracket => exact typed_append chunk .csi some' text last'
    | csi => exact typed_append chunk _ some' text last'
    | text =>
      -- What follows an escape is seen past the end of the chunk.
      have ahead : (b = 0x1b ∧ (chunk ++ rest).head? = some 0x5b) ↔ (b = 0x1b ∧ chunk.head? = some 0x5b) := by
        cases chunk with
        | nil =>
          refine iff_of_false (fun both => ?_) nofun
          exact last (by simp [both.1]) both.2
        | cons c chunk => rfl
      simp only [List.cons_append, typed, ahead]
      simp only [scanned] at text
      split
      · next starts =>
          rw [if_pos starts] at text
          exact typed_append chunk .bracket some' text last'
      · next plain =>
          rw [if_neg plain] at text
          rw [typed_append chunk .text some' text last', List.cons_append]

theorem Ends.typed {chunk rest : Bytes} (ends : Ends .text chunk rest) :
    Tty.typed .text (chunk ++ rest) = Tty.typed .text chunk ++ Tty.typed .text rest := by
  rcases ends with rfl | ⟨text, last⟩
  · simp [Tty.typed]
  · cases rest with
    | nil => simp [Tty.typed]
    | cons c rest => exact typed_append chunk .text nofun text last

theorem Unbroken.typed : ∀ {chunks : List Bytes}, Unbroken chunks → chunks.flatMap (Tty.typed .text) = Tty.typed .text chunks.flatten
  | [], _ => rfl
  | chunk :: chunks, unbroken => by
    rw [List.flatMap_cons, List.flatten_cons, unbroken.1.typed, unbroken.2.typed]

theorem Unbroken.agree {chunks : List Bytes} (unbroken : Unbroken chunks) : Agree advance chunks := by
  intro t
  refine ⟨?_, Terminal.keyInput_typed t _⟩
  rw [Terminal.keyInput_chunks, unbroken.typed, Terminal.keyInput_typed]

/-! ### Strings without an escape sequence -/

/-- The start of an escape sequence. -/
def csiStart : Bytes := [0x1b, 0x5b]

theorem not_starts {b : UInt8} {rest : Bytes} (none' : ¬ csiStart <:+: b :: rest) : ¬ (b = 0x1b ∧ rest.head? = some 0x5b) := by
  rintro ⟨rfl, next⟩
  obtain ⟨tail, rfl⟩ := List.head?_eq_some_iff.1 next
  exact none' ⟨[], tail, rfl⟩

theorem typed_sublist : ∀ (s : Bytes) (scan : Scan), (typed scan s).Sublist s
  | [], scan => by cases scan <;> exact .slnil
  | b :: rest, .bracket => (typed_sublist rest .csi).cons b
  | b :: rest, .csi => (typed_sublist rest _).cons b
  | b :: rest, .text => by
    rw [typed]
    split
    · exact (typed_sublist rest .bracket).cons b
    · exact (typed_sublist rest .text).cons_cons b

/-- A string with an escape sequence has a bracket that is not typed. -/
theorem count_typed_lt : ∀ {s : Bytes}, csiStart <:+: s → (typed .text s).count 0x5b < s.count 0x5b
  | [], inside => by simp [csiStart] at inside
  | b :: rest, inside => by
    rw [typed]
    split
    · next starts =>
        obtain ⟨rfl, next⟩ := starts
        obtain ⟨tail, rfl⟩ := List.head?_eq_some_iff.1 next
        have fewer := (typed_sublist tail .csi).count_le 0x5b
        rw [typed, List.count_cons_of_ne (by decide), List.count_cons_self]
        exact Nat.lt_succ_of_le fewer
    · next plain =>
        have inside' : csiStart <:+: rest := by
          rcases List.infix_cons_iff.1 inside with ⟨tail, whole⟩ | later
          · obtain ⟨rfl, rfl⟩ := List.cons.inj whole
            exact absurd ⟨rfl, rfl⟩ plain
          · exact later
        have fewer := count_typed_lt inside'
        simp only [List.count_cons]
        omega

theorem flatMap_typed_singles (s : Bytes) : (s.map fun b => [b]).flatMap (typed .text) = s := by
  induction s with
  | nil => rfl
  | cons b rest ih =>
    rw [List.map_cons, List.flatMap_cons, ih]
    simp [typed]

theorem scanned_plain : ∀ {s : Bytes}, ¬ csiStart <:+: s → scanned .text s = .text
  | [], _ => rfl
  | b :: rest, none' => by
    rw [scanned, if_neg (not_starts none'), scanned_plain fun inside => none' (inside.trans (List.suffix_cons ..).isInfix)]

theorem unbroken_plain : ∀ {chunks : List Bytes}, ¬ csiStart <:+: chunks.flatten → Unbroken chunks
  | [], _ => trivial
  | chunk :: chunks, none' => by
    rw [List.flatten_cons] at none'
    refine ⟨.inr ⟨scanned_plain fun inside => none' (inside.trans (List.prefix_append ..).isInfix), fun last next => ?_⟩,
      unbroken_plain fun inside => none' (inside.trans (List.suffix_append ..).isInfix)⟩
    obtain ⟨front, rfl⟩ := List.getLast?_eq_some_iff.1 last
    obtain ⟨tail, same⟩ := List.head?_eq_some_iff.1 next
    exact none' ⟨front, tail, by simp [same, csiStart]⟩

namespace Terminal

theorem count_feed (t : Terminal G) (b : Bytes) : (t.feed advance b).echoed.count 0x5b = t.echoed.count 0x5b + b.count 0x5b := by
  simp only [feed, List.count_append]

/-- Where keys are echoed, each bracket that is typed is. -/
theorem count_press (t : Terminal G) (b : UInt8) :
    (t.press advance true b).echoed.count 0x5b = t.echoed.count 0x5b + [b].count 0x5b := by
  have plain : ∀ {b c : UInt8}, c ≠ 0x5b → b = c → [b].count 0x5b = 0 := by
    rintro b c other rfl
    simp [other]
  simp only [press, if_true]
  split
  · next enter =>
      rw [count_feed, enter.elim (plain (by decide)) (plain (by decide))]
      rfl
  · split
    · next back =>
        rw [count_feed, back.1.elim (plain (by decide)) (plain (by decide))]
        rfl
    · split
      · next cancel =>
          rw [count_feed, plain (by decide) cancel]
          rfl
      · split
        · next ends => rw [plain (by decide) ends.1, Nat.add_zero]
        · split
          · exact count_feed ..
          · next control =>
              have other : b ≠ 0x5b := by
                rintro rfl
                exact control (by decide)
              rw [plain other rfl, Nat.add_zero]

theorem count_taps : ∀ (keys : Bytes) (t : Terminal G), t.io.tty.echo = true →
    (keys.foldl (tap advance) t).echoed.count 0x5b = t.echoed.count 0x5b + keys.count 0x5b
  | [], t, _ => rfl
  | b :: keys, t, mode => by
    have first : (tap advance t b).echoed.count 0x5b = t.echoed.count 0x5b + [b].count 0x5b := by
      rw [tap, mode]
      exact t.count_press b
    have mode' : (tap advance t b).io.tty.echo = true := (congrArg TtyMode.echo (press_tty ..)).trans mode
    rw [List.foldl_cons, count_taps keys _ mode', first, Nat.add_assoc, ← List.count_append, List.singleton_append]

end Terminal

/-- Every split of a string agrees exactly where the string has no escape sequence, and of any string those
splits agree that break none. -/
theorem agree_iff (advance : G → Bytes → G × List Bytes) (grid : G) (s : Bytes) :
    ((∀ chunks, chunks.flatten = s → Agree advance chunks) ↔ ¬ csiStart <:+: s) ∧
      ∀ chunks, chunks.flatten = s → Unbroken chunks → Agree advance chunks := by
  refine ⟨⟨fun agree inside => ?_, fun none' chunks whole => ?_⟩, fun chunks _ unbroken => unbroken.agree⟩
  · -- One key at a time, the bracket of the sequence is typed and echoed.
    have whole : (s.map fun b => [b]).flatten = s := by simp [← List.flatMap_def]
    have same := (agree _ whole { grid }).1
    rw [whole, Terminal.keyInput_chunks, flatMap_typed_singles, Terminal.keyInput_typed] at same
    have counts := congrArg (fun t => t.echoed.count 0x5b) same
    have mode : ({ grid } : Terminal G).io.tty.echo = true := rfl
    simp only [Terminal.count_taps _ _ mode, Nat.add_left_cancel_iff] at counts
    exact (count_typed_lt inside).ne' counts
  · exact (unbroken_plain (whole ▸ none')).agree

end Agreeing

/-! ## Poles -/

section Poles

/-- A guest that has echo off is fed a secret and more, reads the first line, and ends. -/
def promptsSecret : List Call :=
  [.setTty false true, .feedIn [115, 10], .read 2, .feedIn [119, 10], .close]

/-- A guest in raw mode ends. -/
def endsRaw : List Call := [.setTty false false, .close]

/-- The next guest reads what was typed for the one before, and is in the mode that one left. -/
theorem secret_left :
    (¬ (TermIo.run {} promptsSecret).reopen.Clean ∧ (TermIo.run {} promptsSecret).reopen.answers [.read 8] = [.read [119, 10]]) ∧
      (¬ (TermIo.run {} endsRaw).reopen.Clean ∧ (TermIo.run {} endsRaw).reopen.answers [.isRaw, .writeOut [10]] = [.raw true, .wrote [10]] ∧
        ({} : TermIo).answers [.isRaw, .writeOut [10]] = [.raw false, .wrote [13, 10]]) := by
  refine ⟨⟨fun clean => ?_, by decide +kernel⟩, fun clean => ?_, by decide +kernel, by decide +kernel⟩
  · exact absurd (clean.stdin []) (by decide +kernel)
  · exact absurd (clean.answered [.isRaw]) (by decide +kernel)

/-- A parser that replies nothing, and keeps nothing. -/
def mute (_ : Unit) (_ : Bytes) : Unit × List Bytes := ((), [])

/-- An arrow key that comes in two chunks enters the line; in one it does not. -/
theorem arrow_typed : ¬ Agree mute [[0x1b], [0x5b, 0x41, 0x0d]] ∧
    ([[0x1b], [0x5b, 0x41, 0x0d]].foldl (Terminal.keyInput mute) { grid := () }).io.inp.buf = [0x5b, 0x41, 0x0a] ∧
      (({ grid := () } : Terminal Unit).keyInput mute [0x1b, 0x5b, 0x41, 0x0d]).io.inp.buf = [0x0a] := by
  refine ⟨fun agree => ?_, by decide +kernel, by decide +kernel⟩
  have bufs := congrArg (fun t => t.io.inp.buf) (agree { grid := () }).1
  exact absurd bufs (by decide +kernel)

end Poles

end Wk.Tty
