/-
# Wk.MidiFile -- Standard MIDI Files, read and written

A file is a header and a list of tracks, a track a list of events, each with its distance
from the one before.  The writer never uses running status and the reader takes it, so
the two meet event by event: what `writeEvent` puts first, `readEvent` takes off, whatever
follows and whatever status was running (`readEvent_writeEvent`).

A chunk says its own length in four bytes.  A longer track is written with the length
wrapped, and what the reader then takes for the track is a proper beginning of it; since
reading is `readEvent` again, that beginning cannot be the same track
(`parseTrack_shorter`).
-/
import Wk.Protocol

namespace Wk.Smf

set_option autoImplicit false

/-! ## Events -/

/-- `meta::END_OF_TRACK`. -/
def END_OF_TRACK : UInt8 := 0x2F

/-- What an event is: a channel message's raw bytes, a meta event, or a
system-exclusive dump. -/
inductive EventKind where
  | midi (msg : Bytes)
  | metaEvent (kind : UInt8) (data : Bytes)
  | sysex (data : Bytes)
  deriving DecidableEq, Repr

def EventKind.isEndOfTrack : EventKind → Bool
  | .metaEvent kind _ => kind = END_OF_TRACK
  | _ => false

structure Event where
  /-- Ticks since the previous event on this track. -/
  delta : Nat
  kind : EventKind
  deriving DecidableEq, Repr

/-- A Standard MIDI File; `ppq` is ticks per quarter note. -/
structure MidiFile where
  ppq : Nat
  tracks : List (List Event)
  deriving DecidableEq, Repr

inductive Error where
  | notAMidiFile
  | truncated
  | smpteTiming
  | badTrack (index : Nat)
  deriving DecidableEq, Repr

/-- `meta::TRACK_NAME`, `meta::TEMPO` and `meta::TIME_SIGNATURE`. -/
def TRACK_NAME : UInt8 := 0x03
def TEMPO : UInt8 := 0x51
def TIME_SIGNATURE : UInt8 := 0x58

namespace EventKind

/-- A tempo event, from microseconds per quarter note. -/
def tempo (microsPerQuarter : Nat) : EventKind :=
  let m := min microsPerQuarter 0xFFFFFF
  .metaEvent TEMPO [UInt8.ofNat (m / 2 ^ 16), UInt8.ofNat (m / 2 ^ 8), UInt8.ofNat m]

/-- Microseconds per quarter note, if this is a tempo event. -/
def asTempo : EventKind → Option Nat
  | .metaEvent kind [a, b, c] =>
    if kind = TEMPO then some (a.toNat * 2 ^ 16 + b.toNat * 2 ^ 8 + c.toNat) else none
  | _ => none

def trackName (name : String) : EventKind := .metaEvent TRACK_NAME name.toUTF8.toList

/-- A time signature with the conventional clock settings. -/
def timeSignature (numerator denominatorPow2 : UInt8) : EventKind :=
  .metaEvent TIME_SIGNATURE [numerator, denominatorPow2, 24, 8]

def endOfTrack : EventKind := .metaEvent END_OF_TRACK []

end EventKind

namespace MidiFile

/-- An empty file at `ppq` ticks per quarter note. -/
def new (ppq : Nat) : MidiFile := { ppq := max ppq 1, tracks := [] }

/-- The first tempo event in any track, or 120 beats a minute. -/
def tempo (file : MidiFile) : Nat := (file.tracks.flatten.findSome? fun e => e.kind.asTempo).getD 500000

end MidiFile

/-- How many data bytes follow a channel status byte. -/
def channelDataLen (status : UInt8) : Nat :=
  if status &&& 0xF0 = 0xC0 ∨ status &&& 0xF0 = 0xD0 then 1 else 2

/-! ## Writing -/

/-- `u32::to_be_bytes`, of the value modulo 2^32. -/
def u32Bytes (n : Nat) : Bytes :=
  [UInt8.ofNat (n / 2 ^ 24), UInt8.ofNat (n / 2 ^ 16), UInt8.ofNat (n / 2 ^ 8), UInt8.ofNat n]

/-- `u16::to_be_bytes`, of the value modulo 2^16. -/
def u16Bytes (n : Nat) : Bytes := [UInt8.ofNat (n / 2 ^ 8), UInt8.ofNat n]

/-- The groups of seven bits of a value, lowest first, at most `k` of them. -/
def groups : Nat → Nat → List Nat
  | 0, _ => []
  | k + 1, value => value % 128 :: if value / 128 = 0 then [] else groups k (value / 128)

/-- SMF's variable-length quantity: the groups highest first, the high bit set on every
byte but the last. -/
def writeVlq (value : Nat) : Bytes :=
  match groups 5 value with
  | [] => []
  | low :: high => high.reverse.map (fun g => UInt8.ofNat (g + 128)) ++ [UInt8.ofNat low]

/-- Written without running status. -/
def writeEvent (event : Event) : Bytes :=
  writeVlq event.delta ++
    match event.kind with
    | .midi msg => msg
    | .metaEvent kind data => 0xFF :: kind :: (writeVlq (data.length % 2 ^ 32) ++ data)
    | .sysex data => 0xF0 :: (writeVlq (data.length % 2 ^ 32) ++ data)

/-- Every track ends with an end of track, whatever the caller handed over. -/
def writeTrack (events : List Event) : Bytes :=
  events.flatMap writeEvent ++
    if events.getLast?.any fun e => e.kind.isEndOfTrack then []
    else writeVlq 0 ++ [0xFF, END_OF_TRACK, 0]

def MThd : Bytes := [0x4D, 0x54, 0x68, 0x64]
def MTrk : Bytes := [0x4D, 0x54, 0x72, 0x6B]

/-- One track as a chunk: its tag, its length, its body. -/
def writeChunk (track : List Event) : Bytes :=
  MTrk ++ u32Bytes (writeTrack track).length ++ writeTrack track

/-- `MidiFile::write`: always format 1. -/
def write (f : MidiFile) : Bytes :=
  MThd ++ u32Bytes 6 ++ u16Bytes 1 ++ u16Bytes f.tracks.length ++ u16Bytes (max f.ppq 1) ++
    f.tracks.flatMap writeChunk

/-! ## Reading

A `Reader` is the bytes it has not read yet. -/

/-- `Reader::take`. -/
def take (n : Nat) (r : Bytes) : Option (Bytes × Bytes) :=
  if n ≤ r.length then some (r.take n, r.drop n) else none

/-- `Reader::u8`. -/
def u8 : Bytes → Option (UInt8 × Bytes)
  | [] => none
  | b :: r => some (b, r)

/-- `Reader::u32`. -/
def u32 : Bytes → Option (Nat × Bytes)
  | a :: b :: c :: d :: r => some (a.toNat * 2 ^ 24 + b.toNat * 2 ^ 16 + c.toNat * 2 ^ 8 + d.toNat, r)
  | _ => none

/-- The loop of `Reader::vlq`: at most `k` more bytes. -/
def vlqFrom : Nat → Nat → Bytes → Option (Nat × Bytes)
  | 0, _, _ => none
  | _ + 1, _, [] => none
  | k + 1, value, byte :: r =>
    let value := value * 128 + byte.toNat % 128
    if byte.toNat < 128 then some (value, r) else vlqFrom k value r

/-- `Reader::vlq`: a longer run than four bytes is a corrupt file. -/
def vlq (r : Bytes) : Option (Nat × Bytes) := vlqFrom 4 0 r

/-- The rest of an event after its first byte, and the status that runs on. -/
def readKind (running : Option UInt8) (byte : UInt8) (r : Bytes) :
    Option (EventKind × Option UInt8 × Bytes) :=
  if byte = 0xFF then do
    let (kind, r) ← u8 r
    let (len, r) ← vlq r
    let (data, r) ← take len r
    some (.metaEvent kind data, none, r)
  else if byte = 0xF0 ∨ byte = 0xF7 then do
    let (len, r) ← vlq r
    let (data, r) ← take len r
    some (.sysex data, none, r)
  else if 0x80 ≤ byte then do
    let (data, r) ← take (channelDataLen byte) r
    some (.midi (byte :: data), some byte, r)
  else do
    -- Running status: this byte is the first data byte of another message.
    let status ← running
    let (data, r) ← take (channelDataLen status - 1) r
    some (.midi (status :: byte :: data), some status, r)

/-- One turn of the loop of `parse_track`. -/
def readEvent (running : Option UInt8) (r : Bytes) : Option (Event × Option UInt8 × Bytes) := do
  let (delta, r) ← vlq r
  let (byte, r) ← u8 r
  let (kind, running, r) ← readKind running byte r
  some ({ delta, kind }, running, r)

/-! Every piece of the reader takes something off the front, and does the same with more
behind it. -/

theorem take_extend {n : Nat} {r data rest : Bytes} (q : Bytes) (took : take n r = some (data, rest)) :
    take n (r ++ q) = some (data, rest ++ q) := by
  unfold take at took ⊢
  split at took
  · next fits =>
      cases took
      rw [if_pos (by rw [List.length_append]; omega), List.take_append_of_le_length fits,
        List.drop_append_of_le_length fits]
  · cases took

theorem take_length {n : Nat} {r data rest : Bytes} (took : take n r = some (data, rest)) :
    rest.length ≤ r.length := by
  unfold take at took
  split at took
  · cases took
    simp
  · cases took

theorem take_self (data rest : Bytes) : take data.length (data ++ rest) = some (data, rest) := by
  simp [take]

theorem u8_extend {r rest : Bytes} {b : UInt8} (q : Bytes) (took : u8 r = some (b, rest)) :
    u8 (r ++ q) = some (b, rest ++ q) := by
  cases r with
  | nil => cases took
  | cons => cases took; rfl

theorem u8_length {r rest : Bytes} {b : UInt8} (took : u8 r = some (b, rest)) : rest.length < r.length := by
  cases r with
  | nil => cases took
  | cons => cases took; simp

theorem vlqFrom_extend (q : Bytes) : ∀ {k value n : Nat} {r rest : Bytes},
    vlqFrom k value r = some (n, rest) → vlqFrom k value (r ++ q) = some (n, rest ++ q)
  | 0, _, _, _, _, took => by cases took
  | _ + 1, _, _, [], _, took => by cases took
  | k + 1, value, n, byte :: r, rest, took => by
    simp only [vlqFrom, List.cons_append] at took ⊢
    split at took
    · next last =>
        cases took
        rw [if_pos last]
    · next more =>
        rw [if_neg more]
        exact vlqFrom_extend q took

theorem vlqFrom_length : ∀ {k value n : Nat} {r rest : Bytes},
    vlqFrom k value r = some (n, rest) → rest.length < r.length
  | 0, _, _, _, _, took => by cases took
  | _ + 1, _, _, [], _, took => by cases took
  | k + 1, value, n, byte :: r, rest, took => by
    simp only [vlqFrom] at took
    split at took
    · cases took
      simp
    · have shorter := vlqFrom_length took
      rw [List.length_cons]
      omega

theorem readKind_extend {running running' : Option UInt8} {byte : UInt8} {r rest : Bytes} {kind : EventKind}
    (q : Bytes) (took : readKind running byte r = some (kind, running', rest)) :
    readKind running byte (r ++ q) = some (kind, running', rest ++ q) := by
  unfold readKind at took ⊢
  split at took
  · next isMeta =>
      rw [if_pos isMeta]
      simp only [Option.bind_eq_bind, Option.bind_eq_some_iff, Prod.exists] at took
      obtain ⟨number, r₁, first, len, r₂, second, data, r₃, third, same⟩ := took
      cases same
      simp [u8_extend q first, vlqFrom_extend q second, vlq, take_extend q third]
  · next notMeta =>
      rw [if_neg notMeta]
      split at took
      · next isSysex =>
          rw [if_pos isSysex]
          simp only [Option.bind_eq_bind, Option.bind_eq_some_iff, Prod.exists] at took
          obtain ⟨len, r₂, second, data, r₃, third, same⟩ := took
          cases same
          simp [vlqFrom_extend q second, vlq, take_extend q third]
      · next notSysex =>
          rw [if_neg notSysex]
          split at took
          · next isStatus =>
              rw [if_pos isStatus]
              simp only [Option.bind_eq_bind, Option.bind_eq_some_iff, Prod.exists] at took
              obtain ⟨data, r₃, third, same⟩ := took
              cases same
              simp [take_extend q third]
          · next isData =>
              rw [if_neg isData]
              simp only [Option.bind_eq_bind, Option.bind_eq_some_iff, Prod.exists] at took
              obtain ⟨status, runs, data, r₃, third, same⟩ := took
              cases same
              simp [runs, take_extend q third]

theorem readKind_length {running running' : Option UInt8} {byte : UInt8} {r rest : Bytes} {kind : EventKind}
    (took : readKind running byte r = some (kind, running', rest)) : rest.length ≤ r.length := by
  unfold readKind at took
  split at took
  · simp only [Option.bind_eq_bind, Option.bind_eq_some_iff, Prod.exists] at took
    obtain ⟨number, r₁, first, len, r₂, second, data, r₃, third, same⟩ := took
    cases same
    exact ((take_length third).trans (vlqFrom_length second).le).trans (u8_length first).le
  · split at took
    · simp only [Option.bind_eq_bind, Option.bind_eq_some_iff, Prod.exists] at took
      obtain ⟨len, r₂, second, data, r₃, third, same⟩ := took
      cases same
      exact (take_length third).trans (vlqFrom_length second).le
    · split at took
      · simp only [Option.bind_eq_bind, Option.bind_eq_some_iff, Prod.exists] at took
        obtain ⟨data, r₃, third, same⟩ := took
        cases same
        exact take_length third
      · simp only [Option.bind_eq_bind, Option.bind_eq_some_iff, Prod.exists] at took
        obtain ⟨status, _, data, r₃, third, same⟩ := took
        cases same
        exact take_length third

theorem readEvent_eq_some {running running' : Option UInt8} {r rest : Bytes} {event : Event}
    (took : readEvent running r = some (event, running', rest)) :
    ∃ r₁ byte r₂, vlq r = some (event.delta, r₁) ∧ u8 r₁ = some (byte, r₂) ∧
      readKind running byte r₂ = some (event.kind, running', rest) := by
  simp only [readEvent, Option.bind_eq_bind, Option.bind_eq_some_iff, Prod.exists] at took
  obtain ⟨delta, r₁, first, byte, r₂, second, kind, status, r₃, third, same⟩ := took
  cases same
  exact ⟨r₁, byte, r₂, first, second, third⟩

theorem readEvent_extend {running running' : Option UInt8} {r rest : Bytes} {event : Event} (q : Bytes)
    (took : readEvent running r = some (event, running', rest)) :
    readEvent running (r ++ q) = some (event, running', rest ++ q) := by
  obtain ⟨r₁, byte, r₂, first, second, third⟩ := readEvent_eq_some took
  simp [readEvent, vlqFrom_extend q first, vlq, u8_extend q second, readKind_extend q third]

theorem readEvent_length {running running' : Option UInt8} {r rest : Bytes} {event : Event}
    (took : readEvent running r = some (event, running', rest)) : rest.length < r.length := by
  obtain ⟨r₁, byte, r₂, first, second, third⟩ := readEvent_eq_some took
  exact ((readKind_length third).trans_lt (u8_length second)).trans (vlqFrom_length first)

/-- The loop of `parse_track`: to the end of the track, or of the bytes. -/
def parseTrackFrom (running : Option UInt8) (r : Bytes) : Option (List Event) :=
  if r = [] then some []
  else
    match _ : readEvent running r with
    | none => none
    | some (event, running, rest) =>
      if event.kind.isEndOfTrack then some [event]
      else (parseTrackFrom running rest).map (event :: ·)
termination_by r.length
decreasing_by exact readEvent_length ‹_›

/-- `parse_track`. -/
def parseTrack (body : Bytes) : Option (List Event) := parseTrackFrom none body

/-- A read piece of the file, or the end came too early. -/
def orTruncated {α : Type} : Option α → Except Error α
  | some a => .ok a
  | none => .error .truncated

/-- One chunk: its tag, its body and what follows; `none` where there is no tag. -/
def readChunk (r : Bytes) : Option (Except Error (Bytes × Bytes × Bytes)) :=
  (take 4 r).map fun (tag, r) => do
    let (len, r) ← orTruncated (u32 r)
    let (body, r) ← orTruncated (take len r)
    .ok (tag, body, r)

theorem u32_length {r rest : Bytes} {n : Nat} (took : u32 r = some (n, rest)) : rest.length < r.length := by
  match r, took with
  | _ :: _ :: _ :: _ :: rest', took =>
    cases took
    simp only [List.length_cons]
    omega

theorem readChunk_length {r tag body rest : Bytes} (took : readChunk r = some (.ok (tag, body, rest))) :
    rest.length < r.length := by
  obtain ⟨⟨tag', r₁⟩, first, chunk⟩ := Option.map_eq_some_iff.1 took
  dsimp only at chunk
  cases second : u32 r₁ with
  | none => rw [second] at chunk; cases chunk
  | some found =>
    obtain ⟨len, r₂⟩ := found
    cases third : take len r₂ with
    | none => simp [second, third, orTruncated, bind, Except.bind] at chunk
    | some found =>
      obtain ⟨body', r₃⟩ := found
      simp only [second, third, orTruncated, bind, Except.bind] at chunk
      cases chunk
      exact ((take_length third).trans_lt (u32_length second)).trans_le (take_length first)

/-- The loop of `MidiFile::parse`: chunks other than tracks are skipped. -/
def parseChunks (tracks : List (List Event)) (r : Bytes) : Except Error (List (List Event)) :=
  match _ : readChunk r with
  | none => .ok tracks
  | some (.error e) => .error e
  | some (.ok (tag, body, rest)) =>
    if tag = MTrk then
      match parseTrack body with
      | some track => parseChunks (tracks ++ [track]) rest
      | none => .error (.badTrack tracks.length)
    else parseChunks tracks rest
termination_by r.length
decreasing_by all_goals exact readChunk_length ‹_›

/-- `MidiFile::parse`.  A division that is not positive is SMPTE timing. -/
def parse (bytes : Bytes) : Except Error MidiFile := do
  let (tag, r) ← orTruncated (take 4 bytes)
  if tag ≠ MThd then .error .notAMidiFile
  else
    let (headerLen, r) ← orTruncated (u32 r)
    let (header, r) ← orTruncated (take headerLen r)
    if header.length < 6 then .error .truncated
    else
      let division := (header.getD 4 0).toNat * 256 + (header.getD 5 0).toNat
      if division = 0 ∨ 32768 ≤ division then .error .smpteTiming
      else
        let tracks ← parseChunks [] r
        .ok { ppq := division, tracks }

/-! ## The two meet -/

theorem toNat_ofNat {n : Nat} (small : n < 256) : (UInt8.ofNat n).toNat = n := by
  simp [Nat.mod_eq_of_lt small]

/-- The value that groups of seven bits stand for, lowest first. -/
def valueOf : List Nat → Nat
  | [] => 0
  | low :: high => low + 128 * valueOf high

theorem valueOf_groups : ∀ {k value : Nat}, value < 128 ^ k → valueOf (groups k value) = value
  | 0, value, small => by
    have zero : value = 0 := by simpa using small
    rw [zero]
    rfl
  | k + 1, value, small => by
    rw [groups, valueOf]
    split
    · next done =>
        rw [valueOf]
        omega
    · have smaller : value / 128 < 128 ^ k := Nat.div_lt_of_lt_mul (by rwa [pow_succ, mul_comm] at small)
      rw [valueOf_groups smaller]
      omega

theorem groups_lt : ∀ {k value : Nat}, ∀ g ∈ groups k value, g < 128
  | 0, _, g, member => by cases member
  | k + 1, value, g, member => by
    rcases List.mem_cons.1 member with rfl | more
    · exact Nat.mod_lt _ (by decide)
    · split at more
      · cases more
      · exact groups_lt g more

/-- A value takes no more groups than it needs. -/
theorem groups_length : ∀ {j k value : Nat}, value < 128 ^ (j + 1) → (groups k value).length ≤ j + 1
  | _, 0, _, _ => Nat.zero_le _
  | 0, k + 1, value, small => by
    have done : value / 128 = 0 := Nat.div_eq_of_lt (by simpa using small)
    simp [groups, done]
  | j + 1, k + 1, value, small => by
    rw [groups, List.length_cons]
    split
    · simp
    · have smaller : value / 128 < 128 ^ (j + 1) :=
        Nat.div_lt_of_lt_mul (by rwa [pow_succ, mul_comm] at small)
      exact Nat.succ_le_succ (groups_length smaller)

/-- Reading groups highest first, all but the last marked. -/
theorem vlqFrom_groups : ∀ {high : List Nat} {k value low : Nat} (rest : Bytes), high.length < k →
    (∀ g ∈ high, g < 128) → low < 128 →
    vlqFrom k value (high.map (fun g => UInt8.ofNat (g + 128)) ++ [UInt8.ofNat low] ++ rest) =
      some ((high.foldl (fun value g => value * 128 + g) value) * 128 + low, rest)
  | [], k + 1, value, low, rest, _, _, small => by
    have byte : (UInt8.ofNat low).toNat = low := toNat_ofNat (by omega)
    simp only [List.map_nil, List.nil_append, List.cons_append, vlqFrom, byte, if_pos small,
      List.foldl_nil, Nat.mod_eq_of_lt small]
  | g :: high, k + 1, value, low, rest, fits, all, small => by
    have group : g < 128 := all g (List.mem_cons_self ..)
    have byte : (UInt8.ofNat (g + 128)).toNat = g + 128 := toNat_ofNat (by omega)
    have sevenBits : (g + 128) % 128 = g := by omega
    have more : ¬g + 128 < 128 := by omega
    simp only [List.map_cons, List.cons_append, vlqFrom, byte, if_neg more, sevenBits, List.foldl_cons]
    exact vlqFrom_groups rest (by simpa using fits) (fun g member => all g (List.mem_cons_of_mem _ member))
      small

theorem foldl_reverse_groups (high : List Nat) :
    high.reverse.foldl (fun value g => value * 128 + g) 0 = valueOf high := by
  induction high with
  | nil => rfl
  | cons g high ih =>
    rw [List.reverse_cons, List.foldl_append, ih, List.foldl_cons, List.foldl_nil, valueOf]
    ring

/-- **A quantity below 2^28** reads back, whatever follows it. -/
theorem vlq_writeVlq {value : Nat} (small : value < 2 ^ 28) (rest : Bytes) :
    vlq (writeVlq value ++ rest) = some (value, rest) := by
  have fits : (groups 5 value).length ≤ 4 := @groups_length 3 5 value (by norm_num at small ⊢; exact small)
  have whole : valueOf (groups 5 value) = value := valueOf_groups (by norm_num at small ⊢; omega)
  have lt : ∀ g ∈ groups 5 value, g < 128 := groups_lt
  unfold vlq writeVlq
  cases split : groups 5 value with
  | nil => simp [groups] at split
  | cons low high =>
    rw [split] at fits whole lt
    have read := @vlqFrom_groups high.reverse 4 0 low rest
      (by simpa using Nat.lt_of_succ_le fits)
      (fun g member => lt g (List.mem_cons_of_mem _ (List.mem_reverse.1 member)))
      (lt low (List.mem_cons_self ..))
    rw [List.append_assoc] at read ⊢
    rw [read, foldl_reverse_groups, ← whole, valueOf]
    congr 2
    ring

/-- What a well-formed event is. -/
structure Event.Valid (event : Event) : Prop where
  delta : event.delta < 2 ^ 28
  midi : ∀ msg, event.kind = .midi msg → ∃ status data, msg = status :: data ∧
    0x80 ≤ status ∧ status ≤ 0xEF ∧ data.length = channelDataLen status ∧ ∀ b ∈ data, b < 0x80
  metaEvent : ∀ kind data, event.kind = .metaEvent kind data → data.length < 2 ^ 28
  sysex : ∀ data, event.kind = .sysex data → data.length < 2 ^ 28

/-- A track of well-formed events ends in its only end of track. -/
def ValidTrack (track : List Event) : Prop :=
  (∀ event ∈ track, event.Valid) ∧
    ∃ before last, track = before ++ [last] ∧ last.kind.isEndOfTrack = true ∧
      ∀ event ∈ before, event.kind.isEndOfTrack = false

structure MidiFile.Valid (f : MidiFile) : Prop where
  ppq : 1 ≤ f.ppq ∧ f.ppq ≤ 32767
  tracks : ∀ track ∈ f.tracks, ValidTrack track

/-- What can be written of an event: a message with a status byte that begins nothing else,
and the sizes of it. -/
structure Event.Writable (event : Event) : Prop where
  delta : event.delta < 2 ^ 28
  midi : ∀ msg, event.kind = .midi msg → ∃ status data, msg = status :: data ∧
    0x80 ≤ status ∧ status ∉ [0xF0, 0xF7, 0xFF] ∧ data.length = channelDataLen status
  metaEvent : ∀ kind data, event.kind = .metaEvent kind data → data.length < 2 ^ 28
  sysex : ∀ data, event.kind = .sysex data → data.length < 2 ^ 28

/-- A track of such events ends in its only end of track. -/
def WritableTrack (track : List Event) : Prop :=
  (∀ event ∈ track, event.Writable) ∧
    ∃ before last, track = before ++ [last] ∧ last.kind.isEndOfTrack = true ∧
      ∀ event ∈ before, event.kind.isEndOfTrack = false

theorem Event.Valid.writable {event : Event} (valid : event.Valid) : event.Writable where
  delta := valid.delta
  midi msg same := by
    obtain ⟨status, data, rfl, low, high, len, _⟩ := valid.midi msg same
    refine ⟨status, data, rfl, low, fun system => ?_, len⟩
    simp only [List.mem_cons, List.not_mem_nil, or_false] at system
    rcases system with rfl | rfl | rfl <;> exact absurd high (by decide)
  metaEvent := valid.metaEvent
  sysex := valid.sysex

theorem ValidTrack.writable {track : List Event} (valid : ValidTrack track) : WritableTrack track :=
  ⟨fun event member => (valid.1 event member).writable, valid.2⟩

/-- **One event** reads back, whatever status is running and whatever follows. -/
theorem readEvent_writeEvent {event : Event} (valid : event.Writable) (running : Option UInt8) (rest : Bytes) :
    ∃ running', readEvent running (writeEvent event ++ rest) = some (event, running', rest) := by
  obtain ⟨delta, kind⟩ := event
  have delta_back : ∀ r, vlqFrom 4 0 (writeVlq delta ++ r) = some (delta, r) := vlq_writeVlq valid.delta
  have unwrapped : ∀ data : Bytes, data.length < 2 ^ 28 → data.length % 2 ^ 32 = data.length :=
    fun data small => Nat.mod_eq_of_lt (small.trans (by norm_num))
  have size_back : ∀ data : Bytes, data.length < 2 ^ 28 →
      ∀ r, vlqFrom 4 0 (writeVlq data.length ++ r) = some (data.length, r) :=
    fun data small r => vlq_writeVlq small r
  cases kind with
  | midi msg =>
    obtain ⟨status, data, rfl, low, system, len⟩ := valid.midi msg rfl
    have notMeta : status ≠ 0xFF := by rintro rfl; exact system (by decide)
    have notSysex : ¬(status = 0xF0 ∨ status = 0xF7) := by
      rintro (rfl | rfl) <;> exact system (by decide)
    have taken : take (channelDataLen status) (data ++ rest) = some (data, rest) := len ▸ take_self data rest
    refine ⟨some status, ?_⟩
    simp [readEvent, writeEvent, vlq, delta_back, u8, readKind, notMeta, notSysex, low, taken]
  | metaEvent kind data =>
    have small := valid.metaEvent kind data rfl
    refine ⟨none, ?_⟩
    simp only [writeEvent, unwrapped data small]
    simp [readEvent, vlq, delta_back, u8, readKind, size_back data small, take_self]
  | sysex data =>
    have small := valid.sysex data rfl
    refine ⟨none, ?_⟩
    simp only [writeEvent, unwrapped data small]
    simp [readEvent, vlq, delta_back, u8, readKind, size_back data small, take_self]

/-! ## Tracks -/

theorem parseTrackFrom_cons {running running' : Option UInt8} {r rest : Bytes} {event : Event}
    (took : readEvent running r = some (event, running', rest)) :
    parseTrackFrom running r =
      if event.kind.isEndOfTrack then some [event] else (parseTrackFrom running' rest).map (event :: ·) := by
  rw [parseTrackFrom]
  have notEmpty : r ≠ [] := by
    rintro rfl
    cases took
  rw [if_neg notEmpty]
  split
  · next none_left => rw [took] at none_left; cases none_left
  · next took' => rw [took] at took'; cases took'; rfl

/-- The writer adds nothing to a track that ends in an end of track. -/
theorem writeTrack_valid {track : List Event} (valid : WritableTrack track) :
    writeTrack track = track.flatMap writeEvent := by
  obtain ⟨_, before, last, rfl, ends, _⟩ := valid
  simp [writeTrack, ends]

/-- Events before the end of track read back one after another.  Induction on them. -/
theorem parseTrackFrom_events {last : Event} (valid : last.Writable) (ends : last.kind.isEndOfTrack = true) :
    ∀ (before : List Event) (running : Option UInt8) (rest : Bytes), (∀ event ∈ before, event.Writable) →
      (∀ event ∈ before, event.kind.isEndOfTrack = false) →
      parseTrackFrom running ((before ++ [last]).flatMap writeEvent ++ rest) = some (before ++ [last])
  | [], running, rest, _, _ => by
    obtain ⟨running', took⟩ := readEvent_writeEvent valid running rest
    rw [List.nil_append, List.flatMap_singleton, parseTrackFrom_cons took, if_pos ends]
  | event :: before, running, rest, all, others => by
    obtain ⟨running', took⟩ := readEvent_writeEvent (all event (List.mem_cons_self ..)) running
      ((before ++ [last]).flatMap writeEvent ++ rest)
    have later := parseTrackFrom_events valid ends before running' rest
      (fun e member => all e (List.mem_cons_of_mem _ member))
      fun e member => others e (List.mem_cons_of_mem _ member)
    rw [List.cons_append, List.flatMap_cons, List.append_assoc, parseTrackFrom_cons took,
      others event (List.mem_cons_self ..), later]
    rfl

/-- **One track** reads back. -/
theorem parseTrack_writeTrack {track : List Event} (valid : WritableTrack track) :
    parseTrack (writeTrack track) = some track := by
  rw [writeTrack_valid valid]
  obtain ⟨all, before, last, rfl, ends, others⟩ := valid
  have back := parseTrackFrom_events (all last (by simp)) ends before none []
    (fun e member => all e (List.mem_append_left _ member)) others
  rwa [List.append_nil] at back

/-- Whatever reads back as a track has all its bytes.  Induction on the track: each event
takes off what was written for it, so nothing is left over at the end. -/
theorem parseTrackFrom_all : ∀ (track : List Event) (running : Option UInt8) (p q : Bytes), track ≠ [] →
    (∀ event ∈ track, event.Writable) → track.flatMap writeEvent = p ++ q →
    parseTrackFrom running p = some track → q = []
  | [], _, _, _, some_event, _, _, _ => absurd rfl some_event
  | event :: track, running, p, q, _, all, bytes, back => by
    rw [parseTrackFrom] at back
    split at back
    · cases back
    · split at back
      · cases back
      · next first running₁ rest took =>
          -- What comes off the front is what was written there.
          have wrote := readEvent_extend q took
          obtain ⟨running₂, whole⟩ := readEvent_writeEvent (all event (List.mem_cons_self ..)) running
            (track.flatMap writeEvent)
          rw [← bytes, List.flatMap_cons, whole] at wrote
          simp only [Option.some.injEq, Prod.mk.injEq] at wrote
          obtain ⟨rfl, rfl, left⟩ := wrote
          split at back
          · cases back
            exact (List.append_eq_nil_iff.1 left.symm).2
          · obtain ⟨later, read, same⟩ := Option.map_eq_some_iff.1 back
            cases same
            by_cases empty : track = []
            · subst empty
              exact (List.append_eq_nil_iff.1 left.symm).2
            · exact parseTrackFrom_all track running₂ rest q empty
                (fun e member => all e (List.mem_cons_of_mem _ member)) left read

/-- A proper beginning of a track is not that track. -/
theorem parseTrack_shorter {track : List Event} (valid : WritableTrack track) {n : Nat}
    (short : n < (writeTrack track).length) : parseTrack ((writeTrack track).take n) ≠ some track := by
  intro back
  have some_event : track ≠ [] := by
    obtain ⟨_, before, last, rfl, _⟩ := valid
    simp
  have nothing := parseTrackFrom_all track none _ _ some_event valid.1
    ((writeTrack_valid valid).symm.trans (List.take_append_drop n _).symm) back
  have some_byte : (writeTrack track).drop n ≠ [] := by
    rw [Ne, List.drop_eq_nil_iff]
    omega
  exact some_byte nothing

/-! ## Files -/

theorem u32_u32Bytes (n : Nat) (r : Bytes) : u32 (u32Bytes n ++ r) = some (n % 2 ^ 32, r) := by
  simp only [u32Bytes, u32, List.cons_append, List.nil_append, UInt8.toNat_ofNat']
  congr 2
  omega

/-- What the reader takes for a written chunk: as much of the body as the length says. -/
theorem readChunk_writeChunk (track : List Event) (r : Bytes) :
    readChunk (writeChunk track ++ r) =
      some (.ok (MTrk, (writeTrack track).take ((writeTrack track).length % 2 ^ 32),
        (writeTrack track).drop ((writeTrack track).length % 2 ^ 32) ++ r)) := by
  have fits : (writeTrack track).length % 2 ^ 32 ≤ (writeTrack track).length := Nat.mod_le ..
  have tag : take 4 (writeChunk track ++ r) =
      some (MTrk, u32Bytes (writeTrack track).length ++ (writeTrack track ++ r)) := by
    rw [writeChunk, List.append_assoc, List.append_assoc]
    exact take_self MTrk _
  have body : take ((writeTrack track).length % 2 ^ 32) (writeTrack track ++ r) =
      some ((writeTrack track).take ((writeTrack track).length % 2 ^ 32),
        (writeTrack track).drop ((writeTrack track).length % 2 ^ 32) ++ r) := by
    rw [take, if_pos (by rw [List.length_append]; omega), List.take_append_of_le_length fits,
      List.drop_append_of_le_length fits]
  simp only [readChunk, tag, Option.map_some, u32_u32Bytes, orTruncated, bind, Except.bind, body]

theorem parseChunks_none {tracks : List (List Event)} {r : Bytes} (none_left : readChunk r = none) :
    parseChunks tracks r = .ok tracks := by
  rw [parseChunks]
  split
  · rfl
  · next failed => rw [none_left] at failed; cases failed
  · next found => rw [none_left] at found; cases found

theorem parseChunks_failed {tracks : List (List Event)} {r : Bytes} {e : Error}
    (failed : readChunk r = some (.error e)) : parseChunks tracks r = .error e := by
  rw [parseChunks]
  split
  · next none_left => rw [failed] at none_left; cases none_left
  · next again => rw [failed] at again; cases again; rfl
  · next found => rw [failed] at found; cases found

theorem parseChunks_track {tracks : List (List Event)} {r body rest : Bytes}
    (chunk : readChunk r = some (.ok (MTrk, body, rest))) :
    parseChunks tracks r =
      match parseTrack body with
      | some track => parseChunks (tracks ++ [track]) rest
      | none => .error (.badTrack tracks.length) := by
  rw [parseChunks]
  split
  · next none_left => rw [chunk] at none_left; cases none_left
  · next failed => rw [chunk] at failed; cases failed
  · next found =>
      rw [chunk] at found
      cases found
      rw [if_pos rfl]

theorem parseChunks_other {tracks : List (List Event)} {r tag body rest : Bytes}
    (chunk : readChunk r = some (.ok (tag, body, rest))) (other : tag ≠ MTrk) :
    parseChunks tracks r = parseChunks tracks rest := by
  rw [parseChunks]
  split
  · next none_left => rw [chunk] at none_left; cases none_left
  · next failed => rw [chunk] at failed; cases failed
  · next found =>
      rw [chunk] at found
      cases found
      rw [if_neg other]

/-- The tracks read so far stay read. -/
theorem parseChunks_longer {tracks : List (List Event)} {r : Bytes} :
    ∀ {out : List (List Event)}, parseChunks tracks r = .ok out → tracks <+: out := by
  induction tracks, r using parseChunks.induct with
  | case1 tracks r none_left =>
    intro out parsed
    rw [parseChunks_none none_left] at parsed
    cases parsed
    exact List.prefix_rfl
  | case2 tracks r e failed =>
    intro out parsed
    rw [parseChunks_failed failed] at parsed
    cases parsed
  | case3 tracks r body rest track back chunk ih =>
    intro out parsed
    rw [parseChunks_track chunk, back] at parsed
    exact (List.prefix_append _ _).trans (ih parsed)
  | case4 tracks r body rest bad chunk =>
    intro out parsed
    rw [parseChunks_track chunk, bad] at parsed
    cases parsed
  | case5 tracks r tag body rest chunk other ih =>
    intro out parsed
    rw [parseChunks_other chunk other] at parsed
    exact ih parsed

/-- Tracks short enough for their chunks read back before whatever follows. -/
theorem parseChunks_chunks : ∀ (more tracks : List (List Event)) (r : Bytes),
    (∀ track ∈ more, WritableTrack track) → (∀ track ∈ more, (writeTrack track).length < 2 ^ 32) →
    parseChunks tracks (more.flatMap writeChunk ++ r) = parseChunks (tracks ++ more) r
  | [], tracks, r, _, _ => by simp
  | track :: more, tracks, r, valid, short => by
    have fits := short track (List.mem_cons_self ..)
    have chunk := readChunk_writeChunk track (more.flatMap writeChunk ++ r)
    rw [Nat.mod_eq_of_lt fits, List.take_length, List.drop_length, List.nil_append] at chunk
    rw [List.flatMap_cons, List.append_assoc, parseChunks_track chunk,
      parseTrack_writeTrack (valid track (List.mem_cons_self ..))]
    dsimp only
    rw [parseChunks_chunks more _ r (fun t member => valid t (List.mem_cons_of_mem _ member))
      fun t member => short t (List.mem_cons_of_mem _ member)]
    simp

theorem parseChunks_end (tracks : List (List Event)) : parseChunks tracks [] = .ok tracks := by
  rw [parseChunks]
  rfl

/-- The first track that is too long for its chunk. -/
theorem exists_first_long {tracks : List (List Event)}
    (long : ¬∀ track ∈ tracks, (writeTrack track).length < 2 ^ 32) :
    ∃ before track after, tracks = before ++ track :: after ∧ 2 ^ 32 ≤ (writeTrack track).length ∧
      ∀ t ∈ before, (writeTrack t).length < 2 ^ 32 := by
  induction tracks with
  | nil => exact absurd nofun long
  | cons track tracks ih =>
    by_cases short : (writeTrack track).length < 2 ^ 32
    · obtain ⟨before, found, after, rfl, here, all⟩ := ih fun rest => long fun t member => by
        rcases List.mem_cons.1 member with rfl | member
        · exact short
        · exact rest t member
      refine ⟨track :: before, found, after, rfl, here, fun t member => ?_⟩
      rcases List.mem_cons.1 member with rfl | member
      · exact short
      · exact all t member
    · exact ⟨[], track, tracks, rfl, not_lt.1 short, nofun⟩

/-- The chunks of valid tracks read back exactly when each fits its chunk. -/
theorem parseChunks_iff {tracks : List (List Event)} (valid : ∀ track ∈ tracks, WritableTrack track) :
    parseChunks [] (tracks.flatMap writeChunk) = .ok tracks ↔
      ∀ track ∈ tracks, (writeTrack track).length < 2 ^ 32 := by
  constructor
  · intro back
    by_contra long
    obtain ⟨before, track, after, rfl, big, short⟩ := exists_first_long long
    have valid' := valid track (by simp)
    have wrapped : (writeTrack track).length % 2 ^ 32 < (writeTrack track).length :=
      (Nat.mod_lt _ (by norm_num)).trans_le big
    rw [List.flatMap_append, parseChunks_chunks before [] _ (fun t member => valid t (by simp [member])) short,
      List.flatMap_cons, parseChunks_track (readChunk_writeChunk track _), List.nil_append] at back
    -- The beginning that is read instead is either no track, or another one.
    split at back
    · next other read =>
        have begins := parseChunks_longer back
        rw [List.prefix_append_right_inj, List.cons_prefix_cons] at begins
        rw [begins.1] at read
        exact parseTrack_shorter valid' wrapped read
    · cases back
  · intro short
    have back := parseChunks_chunks tracks [] [] valid short
    rwa [List.append_nil, List.nil_append, parseChunks_end] at back

/-- Of a written file the header always reads back, and then come the chunks. -/
theorem parse_write_eq {f : MidiFile} (range : 1 ≤ f.ppq ∧ f.ppq ≤ 32767) :
    parse (write f) =
      (parseChunks [] (f.tracks.flatMap writeChunk)).map fun tracks => { ppq := f.ppq, tracks } := by
  obtain ⟨ppq, tracks⟩ := f
  dsimp only at range ⊢
  have tag : take 4 (write { ppq, tracks }) = some (MThd, u32Bytes 6 ++
      ((u16Bytes 1 ++ u16Bytes tracks.length ++ u16Bytes (max ppq 1)) ++ tracks.flatMap writeChunk)) := by
    simp only [write, List.append_assoc]
    exact take_self MThd _
  have header : take 6 ((u16Bytes 1 ++ u16Bytes tracks.length ++ u16Bytes (max ppq 1)) ++
      tracks.flatMap writeChunk) =
        some (u16Bytes 1 ++ u16Bytes tracks.length ++ u16Bytes (max ppq 1), tracks.flatMap writeChunk) :=
    take_self (u16Bytes 1 ++ u16Bytes tracks.length ++ u16Bytes (max ppq 1)) _
  have division : (UInt8.ofNat (max ppq 1 / 2 ^ 8)).toNat * 256 + (UInt8.ofNat (max ppq 1)).toNat = ppq := by
    simp only [UInt8.toNat_ofNat']
    omega
  have timed : ¬(ppq = 0 ∨ 32768 ≤ ppq) := by omega
  have six : (6 % 2 ^ 32 : Nat) = 6 := rfl
  simp only [parse, tag, orTruncated, bind, Except.bind, u32_u32Bytes, six, header]
  simp only [u16Bytes, List.cons_append, List.nil_append, List.getD_cons_succ, List.getD_cons_zero, division]
  rw [if_neg (by simp), if_neg (by simp), if_neg timed]
  cases parseChunks [] (tracks.flatMap writeChunk) <;> rfl

theorem parse_write_ok_iff {f : MidiFile} (range : 1 ≤ f.ppq ∧ f.ppq ≤ 32767) :
    parse (write f) = .ok f ↔ parseChunks [] (f.tracks.flatMap writeChunk) = .ok f.tracks := by
  rw [parse_write_eq range]
  obtain ⟨ppq, tracks⟩ := f
  cases parseChunks [] (tracks.flatMap writeChunk) with
  | error e => simp [Except.map]
  | ok read => simp [Except.map]

/-- **A written file reads back**, as itself, exactly when the body of every track is
shorter than the 2^32 bytes its chunk can announce. -/
theorem parse_write_iff {f : MidiFile} (valid : f.Valid) :
    parse (write f) = .ok f ↔ ∀ track ∈ f.tracks, (writeTrack track).length < 2 ^ 32 :=
  (parse_write_ok_iff valid.ppq).trans (parseChunks_iff fun track member => (valid.tracks track member).writable)

section Poles

/-- The end of a track. -/
def endOfTrack : Event := { delta := 0, kind := .metaEvent END_OF_TRACK [] }

theorem endOfTrack_valid : endOfTrack.Valid :=
  ⟨by decide, nofun, fun _ _ same => by cases same; decide, nofun⟩

/-- Two notes and a tempo. -/
def tuneFile : MidiFile where
  ppq := 480
  tracks := [
    [{ delta := 0, kind := .metaEvent 0x51 [7, 161, 32] }, endOfTrack],
    [{ delta := 0, kind := .midi [0x90, 60, 100] }, { delta := 100000, kind := .midi [0x80, 60, 0] },
      { delta := 0, kind := .midi [0xC1, 5] }, { delta := 3, kind := .sysex [0x7E, 0xF7] }, endOfTrack]]

theorem tuneFile_valid : tuneFile.Valid := by
  have tempo : Event.Valid { delta := 0, kind := .metaEvent 0x51 [7, 161, 32] } :=
    ⟨by decide, nofun, fun _ _ same => by cases same; decide, nofun⟩
  have on : Event.Valid { delta := 0, kind := .midi [0x90, 60, 100] } :=
    ⟨by decide, fun _ same => by cases same; exact ⟨_, _, rfl, by decide, by decide, by decide, by decide +kernel⟩,
      nofun, nofun⟩
  have off : Event.Valid { delta := 100000, kind := .midi [0x80, 60, 0] } :=
    ⟨by decide, fun _ same => by cases same; exact ⟨_, _, rfl, by decide, by decide, by decide, by decide +kernel⟩,
      nofun, nofun⟩
  have program : Event.Valid { delta := 0, kind := .midi [0xC1, 5] } :=
    ⟨by decide, fun _ same => by cases same; exact ⟨_, _, rfl, by decide, by decide, by decide, by decide +kernel⟩,
      nofun, nofun⟩
  have dump : Event.Valid { delta := 3, kind := .sysex [0x7E, 0xF7] } :=
    ⟨by decide, nofun, nofun, fun _ same => by cases same; decide⟩
  refine ⟨by decide, ?_⟩
  simp only [tuneFile, List.forall_mem_cons]
  refine ⟨⟨?_, [_], endOfTrack, rfl, rfl, by decide⟩, ⟨?_, [_, _, _, _], endOfTrack, rfl, rfl, by decide⟩, nofun⟩
  · exact List.forall_mem_cons.2 ⟨tempo, List.forall_mem_cons.2 ⟨endOfTrack_valid, nofun⟩⟩
  · simp only [List.forall_mem_cons]
    exact ⟨on, off, program, dump, endOfTrack_valid, nofun⟩

theorem parse_write_iff_tune : parse (write tuneFile) = .ok tuneFile :=
  (parse_write_iff tuneFile_valid).2 (by decide)

/-- A file of one track that holds `dumps` system-exclusive dumps of `size` bytes. -/
def dumpFile (dumps size : Nat) : MidiFile where
  ppq := 96
  tracks := [List.replicate dumps { delta := 0, kind := .sysex (List.replicate size 0) } ++ [endOfTrack]]

theorem dumpFile_valid {size : Nat} (small : size < 2 ^ 28) (dumps : Nat) : (dumpFile dumps size).Valid := by
  have dump : Event.Valid { delta := 0, kind := .sysex (List.replicate size 0) } :=
    ⟨by norm_num, nofun, nofun, fun _ same => by cases same; rwa [List.length_replicate]⟩
  have range : 1 ≤ 96 ∧ 96 ≤ 32767 := by decide
  refine ⟨range, List.forall_mem_singleton.2 ⟨fun event member => ?_, _, endOfTrack, rfl, rfl, ?_⟩⟩
  · rcases List.mem_append.1 member with inner | last
    · rw [List.eq_of_mem_replicate inner]
      exact dump
    · rw [List.mem_singleton.1 last]
      exact endOfTrack_valid
  · intro event member
    rw [List.eq_of_mem_replicate member]
    rfl

/-- Dumps that together are longer than a chunk can announce do not read back. -/
theorem dumpFile_lost {dumps size : Nat} (small : size < 2 ^ 28) (long : 2 ^ 32 ≤ dumps * size) :
    parse (write (dumpFile dumps size)) ≠ .ok (dumpFile dumps size) := by
  intro back
  have valid := dumpFile_valid small dumps
  have only : List.replicate dumps { delta := 0, kind := .sysex (List.replicate size 0) } ++ [endOfTrack] ∈
      (dumpFile dumps size).tracks := List.mem_singleton_self _
  have short := (parseChunks_iff fun track member => (valid.tracks track member).writable).1
    ((parse_write_ok_iff valid.ppq).1 back) _ only
  have event : size ≤ (writeEvent { delta := 0, kind := .sysex (List.replicate size 0) }).length := by
    simp only [writeEvent, List.length_append, List.length_cons, List.length_replicate]
    omega
  rw [writeTrack_valid (valid.tracks _ only).writable, List.flatMap_append, List.length_append, List.flatMap_replicate,
    List.length_flatten, List.map_replicate, List.sum_replicate, smul_eq_mul] at short
  have many := Nat.mul_le_mul_left dumps event
  omega

/-- Seventeen dumps, each as long as a quantity can announce. -/
theorem long_track_lost :
    (dumpFile 17 (2 ^ 28 - 1)).Valid ∧
      parse (write (dumpFile 17 (2 ^ 28 - 1))) ≠ .ok (dumpFile 17 (2 ^ 28 - 1)) :=
  ⟨dumpFile_valid (by norm_num) 17, dumpFile_lost (by norm_num) (by norm_num)⟩

end Poles

end Wk.Smf
