/-
# Wk.Sequence -- the step sequencer's transport

A `Song` has tracks, a bank of patterns and a chain; the `Scheduler` runs ahead of the
clock, queues every step boundary inside the look-ahead window, and remembers which
`(channel, pitch)` pairs it has turned on.  The song is edited between two calls at
will.  Instants are rationals: the rounding of floats is left out.

What a call emits is kept in stages, one a step boundary, each with the moment it is
about.  `hear` is what a listener makes of the bytes.
-/
import Mathlib

namespace Wk.Sequence

set_option autoImplicit false

/-! ## The song -/

/-- Tempo limits. -/
def minBpm : ℚ := 20
def maxBpm : ℚ := 300

/-- Clock pulses per sixteenth-note step. -/
def pulsesPerStep : Nat := 6

/-- How far ahead of the clock events are queued, in microseconds. -/
def lookaheadUs : ℚ := 60000

/-- A cap on how many steps one pass may queue. -/
def maxStepsPerPump : Nat := 256

/-- Microseconds per sixteenth-note step at `bpm`. -/
def stepMicros (bpm : ℚ) : ℚ := 60000000 / max minBpm (min bpm maxBpm) / 4

/-- A note in a pattern: start column, pitch, length in steps and velocity. -/
structure Note where
  step : Int
  pitch : Int
  len : Int
  vel : UInt8
  deriving DecidableEq, Repr

/-- Is this note sounding at position `p` of a `steps`-long pattern? -/
def Note.covers (note : Note) (p steps : Int) : Bool :=
  note.step ≤ p && p < min (note.step + note.len) steps

/-- A part: the MIDI channel it plays on, 0 to 15, and whether it is silenced. -/
structure Track where
  channel : UInt8
  muted : Bool
  inRange : channel < 16 := by decide
  deriving DecidableEq, Repr

/-- A bar: how long it is, and what every track plays in it. -/
structure Pattern where
  steps : Int
  notes : List (List Note)
  positive : 0 < steps := by decide
  deriving DecidableEq, Repr

/-- The notes of a track, or nothing for a track index out of range. -/
def Pattern.track (pattern : Pattern) (track : Nat) : List Note := pattern.notes.getD track []

structure Song where
  tracks : List Track
  patterns : List Pattern
  chain : List Nat
  deriving DecidableEq, Repr

/-- What the transport is playing: one pattern on repeat, or the chain. -/
inductive Playback where
  | pattern (index : Nat)
  | song
  deriving DecidableEq, Repr

/-- Where the transport is. -/
structure Position where
  pattern : Nat
  step : Int
  chainIndex : Nat
  deriving DecidableEq, Repr

/-- A message to send, and the instant it belongs to. -/
structure Emit where
  data : List UInt8
  time : Nat
  deriving DecidableEq, Repr

/-- The entry of the chain that position `pos` is in. -/
def locateIn (song : Song) : List (Nat × Nat) → Int → Option Position
  | [], _ => none
  | (chainIndex, pattern) :: entries, pos =>
    let len := (song.patterns[pattern]?).elim 0 Pattern.steps
    if pos < len then some { pattern, step := pos, chainIndex }
    else locateIn song entries (pos - len)

/-- Which pattern and step an absolute step number lands on. -/
def locate (song : Song) (play : Playback) (abs : Int) : Option Position :=
  match play with
  | .pattern index => (song.patterns[index]?).map fun pattern =>
    { pattern := index, step := abs % pattern.steps, chainIndex := 0 }
  | .song =>
    let entries := (song.chain.zipIdx.filter fun e => e.1 < song.patterns.length).map Prod.swap
    let total := (entries.map fun e => (song.patterns[e.2]?).elim 0 Pattern.steps).sum
    if total ≤ 0 then none else locateIn song entries (abs % total)

/-! ## The scheduler -/

/-- A `(channel, pitch)` pair. -/
abbrev Key := UInt8 × UInt8

/-- The transport: a clock, and the memory of what it has already sent. -/
structure Scheduler where
  /-- Microseconds per step at the current tempo. -/
  stepUs : ℚ
  /-- The instant of absolute step 0. -/
  origin : ℚ := 0
  /-- The first absolute step not yet sent. -/
  nextStep : Int := 0
  running : Bool := false
  /-- The pairs whose note-on has been sent and note-off has not. -/
  on : List Key := []
  deriving Repr

/-- What a part of a call's output is about. -/
inductive Moment where
  | started
  | step (song : Song) (play : Playback) (suppress : List Key) (abs : Int)
  | tempo
  | stopped
  deriving Repr

/-- A part of a call's output. -/
structure Stage where
  moment : Moment
  emitted : List Emit
  deriving Repr

/-- A float as an unsigned 64-bit integer: truncated, saturating. -/
def toU64 (x : ℚ) : Nat := min ⌊x⌋.toNat (2 ^ 64 - 1)

def noteOn (k : Key) (vel : UInt8) (time : Nat) : Emit := { data := [0x90 ||| k.1, k.2, vel], time }

def noteOff (k : Key) (time : Nat) : Emit := { data := [0x80 ||| k.1, k.2, 0], time }

namespace Scheduler

def new (bpm : ℚ) : Scheduler := { stepUs := stepMicros bpm }

/-- The instant absolute step `i` falls on. -/
def stepInstant (s : Scheduler) (i : Int) : ℚ := s.origin + i * s.stepUs

/-- Change tempo without disturbing the beat: the next boundary stays where it is. -/
def setBpm (s : Scheduler) (bpm : ℚ) : Scheduler :=
  let pivot := s.stepInstant s.nextStep
  { s with stepUs := stepMicros bpm, origin := pivot - s.nextStep * stepMicros bpm }

/-- Start from the top. -/
def start (s : Scheduler) (now : Nat) : Scheduler × List Emit :=
  ({ s with origin := now, nextStep := 0, on := [], running := true }, [{ data := [0xFA], time := now }])

/-- Stop, releasing everything at the end of what is already queued. -/
def stop (s : Scheduler) : Scheduler × List Emit :=
  if s.running then
    let at_ := toU64 (max (s.stepInstant s.nextStep) 0)
    ({ s with on := [], running := false },
      (s.on.map fun k => noteOff k at_) ++ [{ data := [0xFC], time := at_ }])
  else (s, [])

/-- A note is added to what should sound, unless its key is suppressed or there already. -/
def wantNote (suppress : List Key) (channel : UInt8) (want : List (Key × UInt8)) (note : Note) :
    List (Key × UInt8) :=
  let key : Key := (channel, UInt8.ofInt note.pitch)
  if suppress.contains key || want.any fun w => w.1 = key then want
  else want ++ [(key, max note.vel 1)]

/-- The notes of an unmuted track that cover the step are added to what should sound. -/
def wantTrack (pattern : Pattern) (step : Int) (suppress : List Key) (want : List (Key × UInt8))
    (e : Track × Nat) : List (Key × UInt8) :=
  if e.1.muted then want
  else ((pattern.track e.2).filter fun note => note.covers step pattern.steps).foldl
    (wantNote suppress e.1.channel) want

/-- What should be sounding on a step, across every unmuted track. -/
def want (song : Song) (play : Playback) (suppress : List Key) (abs : Int) : List (Key × UInt8) :=
  match locate song play abs with
  | none => []
  | some pos =>
    match song.patterns[pos.pattern]? with
    | none => []
    | some pattern => song.tracks.zipIdx.foldl (wantTrack pattern pos.step suppress) []

/-- Turn on what is wanted and not on yet. -/
def turnOn (time : Nat) : List (Key × UInt8) → List Key → List Emit × List Key
  | [], on => ([], on)
  | (k, vel) :: want, on =>
    if on.contains k then turnOn time want on
    else
      let (out, on) := turnOn time want (on ++ [k])
      (noteOn k vel time :: out, on)

def scheduleStep (s : Scheduler) (abs : Int) (song : Song) (play : Playback) (suppress : List Key) :
    Scheduler × List Emit :=
  let t := s.stepInstant abs
  -- The clock runs whether or not there are notes.
  let clock : List Emit := (List.range pulsesPerStep).map fun k =>
    { data := [0xF8], time := toU64 (max (t + k * s.stepUs / pulsesPerStep) 0) }
  let want := want song play suppress abs
  let at_ := toU64 (max t 0)
  let offs := s.on.filter fun k => !want.any fun w => w.1 = k
  let (ons, on) := turnOn at_ want (s.on.filter fun k => want.any fun w => w.1 = k)
  ({ s with on }, clock ++ (offs.map fun k => noteOff k at_) ++ ons)

/-- The loop of `pump`, with its budget. -/
def pumpLoop (song : Song) (play : Playback) (suppress : List Key) (horizon : ℚ) :
    Nat → Scheduler → Scheduler × List Stage
  | 0, s => (s, [])
  | budget + 1, s =>
    if s.stepInstant s.nextStep < horizon then
      let (s', out) := s.scheduleStep s.nextStep song play suppress
      let (s'', log) := pumpLoop song play suppress horizon budget { s' with nextStep := s.nextStep + 1 }
      (s'', { moment := .step song play suppress s.nextStep, emitted := out } :: log)
    else (s, [])

/-- Queue every step boundary inside the look-ahead window. -/
def pump (s : Scheduler) (now : Nat) (song : Song) (play : Playback) (suppress : List Key) :
    Scheduler × List Stage :=
  if s.running then pumpLoop song play suppress (now + lookaheadUs) maxStepsPerPump s else (s, [])

end Scheduler

/-- A call on the scheduler; `pump` has the song as it stands edited by then. -/
inductive Call where
  | start (now : Nat)
  | pump (now : Nat) (song : Song) (play : Playback) (suppress : List Key)
  | setBpm (bpm : ℚ)
  | stop
  deriving Repr

namespace Scheduler

def call (s : Scheduler) : Call → Scheduler × List Stage
  | .start now => ((s.start now).1, [{ moment := .started, emitted := (s.start now).2 }])
  | .pump now song play suppress => s.pump now song play suppress
  | .setBpm bpm => (s.setBpm bpm, [{ moment := .tempo, emitted := [] }])
  | .stop => (s.stop.1, [{ moment := .stopped, emitted := s.stop.2 }])

/-- A run of calls, with everything it emits. -/
def run (s : Scheduler) : List Call → Scheduler × List Stage
  | [] => (s, [])
  | c :: calls => (((s.call c).1.run calls).1, (s.call c).2 ++ ((s.call c).1.run calls).2)

end Scheduler

/-! ## What a listener hears -/

/-- A note message. -/
inductive NoteEvent where
  | on (k : Key)
  | off (k : Key)
  deriving DecidableEq, Repr

/-- A note-on with velocity 0 is a note-off. -/
def Emit.note (e : Emit) : Option NoteEvent :=
  match e.data with
  | [status, pitch, vel] =>
    if status &&& 0xF0 = 0x90 ∧ vel ≠ 0 then some (.on (status &&& 0x0F, pitch))
    else if status &&& 0xF0 = 0x90 ∨ status &&& 0xF0 = 0x80 then some (.off (status &&& 0x0F, pitch))
    else none
  | _ => none

/-- The keys that sound, each with the instant it was turned on. -/
abbrev Heard := Key → Option Nat

def hearOne (heard : Heard) (e : Emit) : Heard :=
  match e.note with
  | some (.on k) => Function.update heard k (some e.time)
  | some (.off k) => Function.update heard k none
  | none => heard

/-- What sounds after the messages. -/
def hear (heard : Heard) (out : List Emit) : Heard := out.foldl hearOne heard

end Wk.Sequence
