/-
# Wk.Sequence.Smf -- turning a song into a Standard MIDI File and back

`toMidiFile` lays the patterns of an order end to end and writes each part as a track of
note-ons and note-offs.  `fromMidiFile` reads any file: it pulls what it finds onto the
sixteenth-note grid, pairs the note-offs with the note-ons, and cuts the notes into
patterns of one length.

What a song sounds, played through its chain, is `SongData.Sounds`.
-/
import Wk.MidiFile
import Wk.Sequence.Saved
import Wk.Sequence.Unrolled

namespace Wk.Sequence

set_option autoImplicit false

open Library (FloatValue nearest nearestRat)
open Smf (Event EventKind MidiFile)

/-! ## Export -/

def ticksPerQuarter : Nat := 96

/-- Ticks in one sixteenth-note step. -/
def ticksPerStep : Nat := ticksPerQuarter / 4

/-- `as u32`. -/
def asU32 (n : Int) : Nat := (n % 2 ^ 32).toNat

/-- A step as a tick. -/
def tickOf (step : Int) : Nat := asU32 step * ticksPerStep % 2 ^ 32

/-- Where a note stops, clamped to the pattern. -/
def Note.end_ (note : Note) (steps : Int) : Int := min (note.step + note.len) steps

/-- Where each pattern of an order starts, in steps, and where the last one stops. -/
def startsFrom (song : Song) : Int → List Nat → List Int × Int
  | cursor, [] => ([], cursor)
  | cursor, index :: order =>
    let (starts, total) := startsFrom song (cursor + lengthOf song index) order
    (cursor :: starts, total)

/-- A message at a tick, and whether it is a note-on. -/
structure TimedMsg where
  tick : Nat
  isOn : Bool
  msg : Bytes
  deriving DecidableEq, Repr

/-- The two messages of a note in a pattern that starts at `base`. -/
def noteTimed (channel : UInt8) (base steps : Int) (note : Note) : List TimedMsg :=
  [{ tick := tickOf (base + note.step), isOn := true, msg := [0x90 ||| channel, UInt8.ofInt note.pitch, note.vel] },
    { tick := tickOf (base + note.end_ steps), isOn := false, msg := [0x80 ||| channel, UInt8.ofInt note.pitch, 0] }]

/-- The messages of track `index`, pattern by pattern. -/
def timed (song : Song) (order : List Nat) (channel : UInt8) (index : Nat) : List TimedMsg :=
  (order.zip (startsFrom song 0 order).1).flatMap fun e =>
    match song.patterns[e.1]? with
    | none => []
    | some pattern => (pattern.track index).flatMap (noteTimed channel e.2 pattern.steps)

/-- Earlier messages first, and at one tick note-offs before note-ons. -/
def TimedMsg.le (a b : TimedMsg) : Bool := a.tick < b.tick || a.tick = b.tick && (!a.isOn || b.isOn)

/-- Each message with its distance from the one before. -/
def deltas : Nat → List TimedMsg → List Event
  | _, [] => []
  | previous, m :: rest => { delta := m.tick - previous, kind := .midi m.msg } :: deltas m.tick rest

/-- A part as a track of the file; a silent part is not worth one. -/
def partEvents (song : Song) (order : List Nat) (track : Track) (index : Nat) : Option (List Event) :=
  let timed := timed song order track.channel index
  if timed.isEmpty then none
  else
    let sorted := timed.mergeSort TimedMsg.le
    let name := s!"track {index + 1} (ch {track.channel.toNat + 1})"
    let previous := (sorted.getLast?.map TimedMsg.tick).getD 0
    -- Hold the track open to the end of the song.
    let stop := tickOf (startsFrom song 0 order).2
    some ({ delta := 0, kind := .trackName name } :: deltas 0 sorted ++
      [{ delta := stop - previous, kind := .endOfTrack }])

/-- Microseconds per quarter note. -/
def microsPerQuarter (bpm : FloatValue) : Nat := ((bpm.divideInto 53 60000000).toInt 0 (2 ^ 32 - 1)).toNat

/-- Write the song out, playing these patterns one after another. -/
def toMidiFile (song : SongData) (order : List Nat) : MidiFile :=
  { MidiFile.new ticksPerQuarter with
    tracks :=
      [{ delta := 0, kind := .trackName "wk sequencer" }, { delta := 0, kind := .tempo (microsPerQuarter song.bpm) },
        { delta := 0, kind := .timeSignature 4 2 }, { delta := 0, kind := .endOfTrack }] ::
      song.tracks.zipIdx.filterMap fun e => partEvents song.toSong order e.1 e.2 }

/-! ## Import -/

/-- A note whose note-on has been seen and whose release has not. -/
structure Opening where
  track : Nat
  pitch : UInt8
  /-- The step it started on, counted from the beginning of the file. -/
  start : Int
  vel : UInt8
  deriving DecidableEq, Repr

/-- A finished note, positioned in the file rather than in a pattern. -/
structure Imported where
  track : Nat
  start : Int
  pitch : Int
  len : Int
  vel : UInt8
  deriving DecidableEq, Repr

/-- What has been read: the channels in the order they were first heard, the finished
notes and the open ones. -/
structure Import where
  channels : List UInt8 := []
  notes : List Imported := []
  opened : List Opening := []
  deriving DecidableEq, Repr

/-- The track a channel maps to, adding it if there is room. -/
def trackFor (channels : List UInt8) (channel : UInt8) : Option (Nat × List UInt8) :=
  match channels.findIdx? fun c => c = channel with
  | some i => some (i, channels)
  | none => if maxTracks ≤ channels.length then none else some (channels.length, channels ++ [channel])

/-- `as i32` on an integer. -/
def wrapI32 (n : Int) : Int := n.bmod (2 ^ 32)

def Opening.isFor (track : Nat) (pitch : UInt8) (o : Opening) : Bool := o.track = track && o.pitch = pitch

/-- Close the open note for this track and pitch, recording it. -/
def close (st : Import) (track : Nat) (pitch : UInt8) (step : Int) : Import :=
  match st.opened.find? (Opening.isFor track pitch) with
  | none => st
  | some started =>
    { st with
      opened := st.opened.eraseP (Opening.isFor track pitch)
      notes := st.notes ++ [{ track, start := started.start, pitch := pitch.toNat,
                              len := wrapI32 (max (step - started.start) 1), vel := started.vel }] }

/-- `(tick as f64 / ppq * 4.0).round() as i64`: quarter notes hold four steps. -/
def stepAt (ppq tick : Nat) : Int :=
  let quarters := nearestRat 53 (nearest 53 tick / max ppq 1)
  ⌊quarters * 4 + 1 / 2⌋

/-- A channel message at a tick. -/
def message (ppq tick : Nat) (st : Import) : Bytes → Import
  | status :: pitch :: vel :: _ =>
    let isOn := status &&& 0xF0 = 0x90 ∧ 0 < vel
    let isOff := status &&& 0xF0 = 0x80 ∨ status &&& 0xF0 = 0x90 ∧ vel = 0
    if isOn ∨ isOff then
      match trackFor st.channels (status &&& 0x0F) with
      | none => st -- more parts than this sequencer has tracks
      | some (track, channels) =>
        let step := stepAt ppq tick
        -- A second note-on for a pitch already down ends the first.
        let st := close { st with channels } track pitch step
        if isOn then { st with opened := st.opened ++ [{ track, pitch, start := step, vel }] } else st
    else st
  | _ => st

/-- The events of a track, from a tick on; with the tick of the last one. -/
def readEvents (ppq : Nat) : Nat → Import → List Event → Nat × Import
  | tick, st, [] => (tick, st)
  | tick, st, event :: events =>
    match event.kind with
    | .midi msg => readEvents ppq (tick + event.delta) (message ppq (tick + event.delta) st msg) events
    | _ => readEvents ppq (tick + event.delta) st events

/-- A track of the file; what it leaves open is closed where it ends. -/
def readTrack (ppq : Nat) (st : Import) (events : List Event) : Import :=
  let (tick, st) := readEvents ppq 0 st events
  st.opened.foldl (fun st o => close st o.track o.pitch (stepAt ppq tick)) st

/-- The pieces of a note, cut at the pattern boundaries: which pattern, where in it and how
long; there are only so many patterns.  A note of `fuel` steps has at most so many pieces. -/
def pieces (stepsPerPattern : Int) (count : Nat) : Nat → Int → Int → List (Nat × Int × Int)
  | 0, _, _ => []
  | fuel + 1, at_, left =>
    if 0 < left then
      let index := (at_ / stepsPerPattern).toNat
      if count ≤ index then []
      else
        let offset := at_ % stepsPerPattern
        let piece := min left (stepsPerPattern - offset)
        (index, offset, piece) :: pieces stepsPerPattern count fuel (at_ + piece) (left - piece)
    else []

/-- The pieces of a note go to their patterns. -/
def addPieces (stepsPerPattern : Int) (patterns : List Pattern) (note : Imported) : List Pattern :=
  (pieces stepsPerPattern patterns.length note.len.toNat note.start note.len).foldl (fun patterns e =>
    patterns.modify e.1 fun pattern =>
      (pattern.addNote note.track
        { step := e.2.1, pitch := note.pitch, len := e.2.2, vel := note.vel }).1) patterns

/-- Beats per minute from microseconds per quarter note. -/
def bpmOf (tempo : Nat) : FloatValue :=
  clampBpm (clampBpm (((FloatValue.finite (max tempo 1 : Nat)).divideInto 53 60000000).round f32Bits))

/-- Read a Standard MIDI File into a song of `stepsPerPattern`-long patterns, chained in
order. -/
def fromMidiFile (file : MidiFile) (stepsPerPattern : Int) : SongData :=
  let stepsPerPattern := clampInt 1 maxSteps stepsPerPattern
  let song := { SongData.new with bpm := bpmOf file.tempo }
  let st := file.tracks.foldl (readTrack file.ppq) {}
  if st.notes.isEmpty then song
  else
    let stop := (st.notes.map fun n => n.start + n.len).max?.getD 0
    let wanted := max ((stop + stepsPerPattern - 1) / stepsPerPattern) 1
    let count := (min wanted maxPatterns).toNat
    { song with
      tracks := st.channels.map (fun channel => Track.of channel false) ++ song.tracks.drop st.channels.length
      patterns := st.notes.foldl (addPieces stepsPerPattern) (List.replicate count (Pattern.empty stepsPerPattern))
      chain := List.range count }

/-! ## What a song sounds -/

/-- A note of a song, wherever it comes to lie. -/
structure Sound where
  channel : UInt8
  pitch : Int
  start : Int
  len : Int
  vel : UInt8
  deriving DecidableEq, Repr

/-- A note laid out in an order. -/
structure Laid where
  start : Int
  stop : Int
  pitch : Int
  vel : UInt8
  deriving DecidableEq, Repr

/-- The notes of track `index`, where an order puts them. -/
def laid (song : Song) (order : List Nat) (index : Nat) : List Laid :=
  (order.zip (startsFrom song 0 order).1).flatMap fun e =>
    match song.patterns[e.1]? with
    | none => []
    | some pattern => (pattern.track index).map fun note : Note =>
      { start := e.2 + note.step, stop := e.2 + note.end_ pattern.steps, pitch := note.pitch, vel := note.vel }

/-- What the song sounds, played through its chain: the notes of its unmuted tracks, at
least at velocity 1. -/
def SongData.Sounds (song : SongData) (sound : Sound) : Prop :=
  ∃ track index, song.tracks[index]? = some track ∧ track.muted = false ∧
    ∃ p ∈ laid song.toSong song.chain index, sound =
      { channel := track.channel, pitch := p.pitch, start := p.start, len := p.stop - p.start, vel := max p.vel 1 }

/-- What lies of a sound in one pattern, when patterns are `width` steps long. -/
structure Sound.PieceOf (width : Int) (whole piece : Sound) : Prop where
  channel : piece.channel = whole.channel
  pitch : piece.pitch = whole.pitch
  vel : piece.vel = whole.vel
  some_step : 0 < piece.len
  cut : ∃ bar : Int, piece.start = max whole.start (bar * width) ∧
    piece.start + piece.len = min (whole.start + whole.len) ((bar + 1) * width)

end Wk.Sequence
