/-
# Wk.Midi.Stream -- the byte stream of a hardware port

A port sends bytes, not messages: a status byte may be left out where the last message had
the same, system real-time bytes come in the middle of anything, and packets end anywhere.
The decoder puts the messages together again.

* `decode_encoded`: from whatever state, it puts out the messages that were encoded, and the
  real-time bytes between them, each where it came.
-/
import Wk.Midi
import Wk.Library.Transducer

namespace Wk.Midi

open Wk.Library

set_option autoImplicit false

/-! ## The decoder -/

/-- How many data bytes follow a status byte that is not a system real-time byte. -/
def dataLen (status : UInt8) : Nat :=
  if 0x80 ≤ status ∧ status ≤ 0xBF then 2
  else if 0xC0 ≤ status ∧ status ≤ 0xDF then 1
  else if 0xE0 ≤ status ∧ status ≤ 0xEF then 2
  else if status = 0xF1 then 1
  else if status = 0xF2 then 2
  else if status = 0xF3 then 1
  else 0

/-- A system-exclusive dump longer than this is abandoned. -/
def sysexLimit : Nat := 65536

structure Decoder where
  /-- The status byte awaiting data, and how many data bytes it wants in total; for a channel
  message also the running status. -/
  pending : Option (UInt8 × Nat) := none
  /-- Data bytes received for `pending` so far. -/
  data : List UInt8 := []
  /-- The system-exclusive message being accumulated. -/
  sysex : Option Message := none
  deriving DecidableEq, Repr

namespace Decoder

def byte (d : Decoder) (b : UInt8) : Decoder × List Message :=
  -- system real-time: anywhere, and it disturbs nothing
  if 0xF8 ≤ b then (d, [[b]])
  else if b = 0xF7 then
    ({ d with pending := none, sysex := none }, (d.sysex.map fun dump => dump ++ [b]).toList)
  else if b = 0xF0 then ({ pending := none, data := [], sysex := some [b] }, [])
  else if 0x80 ≤ b then
    let want := dataLen b
    if want = 0 then ({ pending := none, data := [], sysex := none }, [[b]])
    else ({ pending := some (b, want), data := [], sysex := none }, [])
  else
    match d.sysex with
    | some dump =>
      if dump.length < sysexLimit then ({ d with sysex := some (dump ++ [b]) }, [])
      -- a runaway dump is given up
      else ({ d with sysex := none }, [])
    | none =>
      match d.pending with
      -- a data byte with no status to attach it to
      | none => (d, [])
      | some (status, want) =>
        let data := d.data ++ [b]
        if data.length < want then ({ d with data }, [])
        else
          ({ d with pending := if status < 0xF0 then some (status, want) else none, data := [] }, [status :: data])

/-- Feed raw bytes, piece by piece. -/
def feed (d : Decoder) (pieces : List (List UInt8)) : Decoder × List (List Message) := Transducer.feeds byte d pieces

end Decoder

/-! ## Encodings -/

/-- A message a port may send: a status byte with its data, or a dump up to its terminator. -/
inductive Complete : Message → Prop where
  | short {status : UInt8} {data : List UInt8} (kind : 0x80 ≤ status ∧ status ≤ 0xF6 ∧ status ≠ 0xF0)
      (length : data.length = dataLen status) (low : ∀ b ∈ data, b < 0x80) : Complete (status :: data)
  | dump {data : List UInt8} (length : (0xF0 :: data).length ≤ sysexLimit) (low : ∀ b ∈ data, b < 0x80) :
      Complete (0xF0 :: data ++ [0xF7])

/-- The status byte a message leaves in force. -/
def latch (m : Message) : Option UInt8 := m.head?.filter (· < 0xF0)

/-- A message in full, or without the status byte that is in force. -/
inductive Spells (running : Option UInt8) : Message → List UInt8 → Prop where
  | whole {m : Message} : Spells running m m
  | bare {status : UInt8} {data : List UInt8} (same : running = some status) : Spells running (status :: data) data

/-- The bytes of a message, which the last of them completes. -/
def cues (m : Message) : List UInt8 → List (Transducer.Cue UInt8 Message)
  | [] => []
  | [b] => [(b, some m)]
  | b :: bs => (b, none) :: cues m bs

/-- The bytes of a row of messages. -/
inductive Encodes : Option UInt8 → List Message → List (Transducer.Cue UInt8 Message) → Prop where
  | nil {running : Option UInt8} : Encodes running [] []
  | cons {running : Option UInt8} {m : Message} {bs : List UInt8} {ms : List Message}
      {rest : List (Transducer.Cue UInt8 Message)} (spells : Spells running m bs) (more : Encodes (latch m) ms rest) :
      Encodes running (m :: ms) (cues m bs ++ rest)

/-- A system real-time byte is a message of its own. -/
def RealTime (b : UInt8) (m : Message) : Prop := 0xF8 ≤ b ∧ m = [b]

/-! ## Bytes -/

theorem low_byte : ∀ b : UInt8, b < 0x80 → ¬ 0xF8 ≤ b ∧ b ≠ 0xF7 ∧ b ≠ 0xF0 ∧ ¬ 0x80 ≤ b := by decide +kernel

theorem status_byte : ∀ b : UInt8, 0x80 ≤ b ∧ b ≤ 0xF6 ∧ b ≠ 0xF0 → ¬ 0xF8 ≤ b ∧ b ≠ 0xF7 ∧ b ≠ 0xF0 ∧ 0x80 ≤ b := by
  decide +kernel

/-- A channel message has data. -/
theorem dataLen_pos : ∀ b : UInt8, 0x80 ≤ b ∧ b < 0xF0 → 0 < dataLen b := by decide +kernel

theorem cues_concat (m : Message) (b : UInt8) : ∀ bs : List UInt8,
    cues m (bs ++ [b]) = bs.map (fun b => (b, none)) ++ [(b, some m)]
  | [] => rfl
  | [_] => rfl
  | x :: y :: bs => congrArg ((x, none) :: ·) (cues_concat m b (y :: bs))

namespace Decoder

/-- After a status byte, with some of its data. -/
def waiting (status : UInt8) (data : List UInt8) : Decoder := { pending := some (status, dataLen status), data }

theorem byte_status (d : Decoder) {b : UInt8} (kind : 0x80 ≤ b ∧ b ≤ 0xF6 ∧ b ≠ 0xF0) :
    d.byte b = if dataLen b = 0 then ({}, [[b]]) else (waiting b [], []) := by
  obtain ⟨realTime, terminator, start, status⟩ := status_byte b kind
  rw [byte, if_neg realTime, if_neg terminator, if_neg start, if_pos status]
  rfl

/-- A data byte of a message that wants more of them. -/
theorem byte_more {status b : UInt8} {data : List UInt8} (low : b < 0x80) (more : data.length + 1 < dataLen status) :
    (waiting status data).byte b = (waiting status (data ++ [b]), []) := by
  obtain ⟨realTime, terminator, start, notStatus⟩ := low_byte b low
  rw [byte, if_neg realTime, if_neg terminator, if_neg start, if_neg notStatus]
  exact if_pos (by simpa [waiting] using more)

/-- The last data byte of a message. -/
theorem byte_last {status b : UInt8} {data : List UInt8} (low : b < 0x80) (last : data.length + 1 = dataLen status) :
    (waiting status data).byte b = (if status < 0xF0 then waiting status [] else {}, [status :: (data ++ [b])]) := by
  obtain ⟨realTime, terminator, start, notStatus⟩ := low_byte b low
  rw [byte, if_neg realTime, if_neg terminator, if_neg start, if_neg notStatus]
  refine (if_neg (by simp [waiting, last])).trans ?_
  split <;> rfl

/-- A byte of a dump that has room. -/
theorem byte_dump {b : UInt8} {dump : Message} (low : b < 0x80) (room : dump.length < sysexLimit) :
    ({ sysex := some dump } : Decoder).byte b = ({ sysex := some (dump ++ [b]) }, []) := by
  obtain ⟨realTime, terminator, start, notStatus⟩ := low_byte b low
  rw [byte, if_neg realTime, if_neg terminator, if_neg start, if_neg notStatus]
  exact if_pos room

/-! ## Messages -/

abbrev Follows := Transducer.Follows byte

/-- The data of a message, from where some of it has come. -/
theorem follows_data {status : UInt8} : ∀ {bs got : List UInt8}, bs ≠ [] → got.length + bs.length = dataLen status →
    (∀ b ∈ bs, b < 0x80) →
      Follows (waiting status got) (cues (status :: (got ++ bs)) bs) (if status < 0xF0 then waiting status [] else {})
  | [b], got, _, length, low => .cons (byte_last (low b (by simp)) length) .nil
  | b :: b' :: bs, got, _, length, low => by
    have more : got.length + 1 < dataLen status := by
      simp only [List.length_cons] at length
      omega
    have rest := @follows_data status (b' :: bs) (got ++ [b]) (by simp) (by simp only [List.length_append, List.length_cons, List.length_nil] at length ⊢; omega)
      fun x member => low x (List.mem_cons_of_mem _ member)
    rw [List.append_assoc, List.singleton_append] at rest
    exact .cons (byte_more (low b (by simp)) more) rest

/-- A short message, from any state. -/
theorem follows_short (d : Decoder) {status : UInt8} {data : List UInt8} (kind : 0x80 ≤ status ∧ status ≤ 0xF6 ∧ status ≠ 0xF0)
    (length : data.length = dataLen status) (low : ∀ b ∈ data, b < 0x80) :
    ∃ after, Follows d (cues (status :: data) (status :: data)) after ∧ (status < 0xF0 → after = waiting status []) := by
  have first := d.byte_status kind
  cases data with
  | nil =>
    have none_wanted : dataLen status = 0 := length.symm
    rw [if_pos none_wanted] at first
    refine ⟨{}, .cons first .nil, fun channel => ?_⟩
    exact absurd none_wanted (dataLen_pos status ⟨kind.1, channel⟩).ne'
  | cons b bs =>
    rw [if_neg (by rw [← length]; simp)] at first
    have rest := @follows_data status (b :: bs) [] (by simp) (by simpa using length) low
    exact ⟨_, .cons first rest, fun channel => if_pos channel⟩

/-- The bytes of a dump. -/
theorem follows_dump : ∀ {data : List UInt8} {dump : Message}, dump.length + data.length ≤ sysexLimit →
    (∀ b ∈ data, b < 0x80) → Follows { sysex := some dump } (data.map fun b => (b, none)) { sysex := some (dump ++ data) }
  | [], dump, _, _ => by
    rw [List.append_nil]
    exact .nil
  | b :: data, dump, length, low => by
    have room : dump.length < sysexLimit := by
      rw [List.length_cons] at length
      omega
    have rest := @follows_dump data (dump ++ [b]) (by simp only [List.length_append, List.length_cons, List.length_nil] at length ⊢; omega)
      fun x member => low x (List.mem_cons_of_mem _ member)
    rw [List.append_assoc, List.singleton_append] at rest
    exact .cons (byte_dump (low b (by simp)) room) rest

/-- What the decoder is in after a message that leaves a status in force. -/
def Ready (running : Option UInt8) (d : Decoder) : Prop := ∀ status, running = some status → d = waiting status []

/-- A message is put out when its last byte comes, from any state if it is in full. -/
theorem follows_message {running : Option UInt8} {m : Message} {bs : List UInt8} {d : Decoder} (complete : Complete m)
    (spells : Spells running m bs) (ready : Ready running d) (channel : ∀ status, running = some status → status < 0xF0) :
    ∃ after, Follows d (cues m bs) after ∧ Ready (latch m) after := by
  cases complete with
  | @short status data kind length low =>
    cases spells with
    | whole =>
      obtain ⟨after, follows, ready⟩ := d.follows_short kind length low
      refine ⟨after, follows, fun running latched => ?_⟩
      obtain ⟨same, channel⟩ := Option.filter_eq_some_iff.1 latched
      cases same
      exact ready (of_decide_eq_true channel)
    | bare same =>
      have below := channel status same
      have some_data : bs ≠ [] := by
        rintro rfl
        exact absurd length (dataLen_pos status ⟨kind.1, below⟩).ne
      have follows := @follows_data status bs [] some_data (by simpa using length) low
      rw [if_pos below] at follows
      refine ⟨waiting status [], ready status same ▸ follows, fun running latched => ?_⟩
      cases (Option.filter_eq_some_iff.1 latched).1
      rfl
  | @dump data length low =>
    have start : d.byte 0xF0 = ({ sysex := some [0xF0] }, []) := rfl
    have stop : ({ sysex := some ([0xF0] ++ data) } : Decoder).byte 0xF7 = ({}, [[0xF0] ++ data ++ [0xF7]]) := rfl
    have room : ([0xF0] : Message).length + data.length ≤ sysexLimit := by
      rw [List.length_cons] at length
      exact (Nat.add_comm ..).trans_le length
    have whole : Follows d (cues (0xF0 :: data ++ [0xF7]) (0xF0 :: data ++ [0xF7])) {} := by
      rw [cues_concat]
      exact .cons start ((follows_dump room low).append (.cons stop .nil))
    have unlatched : latch (0xF0 :: data ++ [0xF7]) = none := rfl
    rw [unlatched]
    generalize dumped : 0xF0 :: data ++ [0xF7] = m at spells whole
    cases spells with
    | whole => exact ⟨{}, whole, fun running latched => by cases latched⟩
    | bare same =>
      cases dumped
      exact absurd (channel 0xF0 same) (by decide)

/-- The bytes of a row of messages. -/
theorem follows_encoded {running : Option UInt8} {ms : List Message} {script : List (Transducer.Cue UInt8 Message)}
    (encodes : Encodes running ms script) (complete : ∀ m ∈ ms, Complete m) (channel : ∀ status, running = some status → status < 0xF0) :
    ∀ {d : Decoder}, Ready running d → ∃ after, Follows d script after := by
  induction encodes with
  | nil => exact fun {d} _ => ⟨d, .nil⟩
  | cons spells _ ih =>
    intro d ready
    obtain ⟨mid, first, ready⟩ := follows_message (complete _ (List.mem_cons_self ..)) spells ready channel
    obtain ⟨after, rest⟩ := ih (fun m member => complete m (List.mem_cons_of_mem _ member))
      (fun status latched => of_decide_eq_true (Option.filter_eq_some_iff.1 latched).2) ready
    exact ⟨after, first.append rest⟩

end Decoder

/-- A message has a byte, also without its status. -/
theorem Complete.spelled {running : Option UInt8} {m : Message} {bs : List UInt8} (complete : Complete m)
    (spells : Spells running m bs) (channel : ∀ status, running = some status → status < 0xF0) : bs ≠ [] := by
  rintro rfl
  generalize nothing : ([] : List UInt8) = bs at spells
  cases complete with
  | @short status data kind length _ =>
    cases spells with
    | whole => cases nothing
    | bare same =>
      cases nothing
      exact absurd length (dataLen_pos status ⟨kind.1, channel status same⟩).ne
  | dump _ _ =>
    cases spells with
    | whole => cases nothing
    | bare _ => simp at nothing

/-- A message is completed once. -/
theorem completed_cues (m : Message) : ∀ {bs : List UInt8}, bs ≠ [] → (cues m bs).filterMap Prod.snd = [m]
  | [_], _ => rfl
  | x :: b :: bs, _ => by
    have rest := @completed_cues m (b :: bs) (List.cons_ne_nil b bs)
    exact rest

/-- An encoding completes its messages, in order. -/
theorem completed_encoded {running : Option UInt8} {ms : List Message} {script : List (Transducer.Cue UInt8 Message)}
    (encodes : Encodes running ms script) (complete : ∀ m ∈ ms, Complete m) (channel : ∀ status, running = some status → status < 0xF0) :
    script.filterMap Prod.snd = ms := by
  induction encodes with
  | nil => rfl
  | @cons running m bs ms rest spells _ ih =>
    have some_byte : bs ≠ [] := Complete.spelled (complete m (List.mem_cons_self ..)) spells channel
    rw [List.filterMap_append, completed_cues _ some_byte, ih (fun m member => complete m (List.mem_cons_of_mem _ member))
      (fun status latched => of_decide_eq_true (Option.filter_eq_some_iff.1 latched).2)]
    rfl

/-- From whatever state, an encoding that starts with a status byte, with system real-time
bytes put in anywhere and cut anywhere, is decoded to its messages and those bytes, each
where it is completed. -/
theorem decode_encoded (d : Decoder) {ms : List Message} {script script' : List (Transducer.Cue UInt8 Message)}
    {pieces : List (List UInt8)} (complete : ∀ m ∈ ms, Complete m) (encodes : Encodes none ms script)
    (inserted : Transducer.Inserted RealTime script script') (cut : pieces.flatten = script'.map Prod.fst) :
    script.filterMap Prod.snd = ms ∧ (d.feed pieces).2.flatten = script'.filterMap Prod.snd := by
  have unlatched : ∀ status, (none : Option UInt8) = some status → status < 0xF0 := fun _ same => by cases same
  obtain ⟨after, follows⟩ := Decoder.follows_encoded encodes complete unlatched (d := d) (fun _ same => by cases same)
  have idle : ∀ d b m, RealTime b m → Decoder.byte d b = (d, [m]) := by
    rintro d b m ⟨realTime, rfl⟩
    exact if_pos realTime
  exact ⟨completed_encoded encodes complete unlatched, (follows.inserted idle inserted).feeds cut⟩

/-- Two notes with one status byte, a clock byte in the second of them, and a decoder that was
in the middle of something else. -/
theorem decode_encoded_chord :
    ([(0x90, none), (60, none), (100, some [0x90, 60, 100]), (64, none), (100, some [0x90, 64, 100])] :
      List (Transducer.Cue UInt8 Message)).filterMap Prod.snd = [[0x90, 60, 100], [0x90, 64, 100]] ∧
    (Decoder.feed { sysex := some [0xF0, 7] } [[0x90, 60], [100, 64, 0xF8], [], [100]]).2.flatten =
      [[0x90, 60, 100], [0xF8], [0x90, 64, 100]] := by
  have first : Complete [0x90, 60, 100] := .short (by decide) rfl (by decide +kernel)
  have second : Complete [0x90, 64, 100] := .short (by decide) rfl (by decide +kernel)
  have complete : ∀ m ∈ [[0x90, 60, 100], [0x90, 64, 100]], Complete m := by
    intro m member
    rcases List.mem_pair.1 member with rfl | rfl
    · exact first
    · exact second
  have encodes : Encodes none [[0x90, 60, 100], [0x90, 64, 100]]
      (cues [0x90, 60, 100] [0x90, 60, 100] ++ (cues [0x90, 64, 100] [64, 100] ++ [])) :=
    .cons .whole (.cons (.bare rfl) .nil)
  exact decode_encoded { sysex := some [0xF0, 7] } complete encodes
    (.keep (.keep (.keep (.keep (.insert ⟨by decide, rfl⟩ (.keep .nil)))))) rfl

end Wk.Midi
