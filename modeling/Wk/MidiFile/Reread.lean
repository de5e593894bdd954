/-
# Wk.MidiFile.Reread -- a file read, written and read again

The reader takes more than the writer makes: running status, chunks of other kinds,
escapes, system statuses with two data bytes, tracks that just stop.  Each of them lands on
a value that can be written (`readEvent_writable`), so what was read reads back from what is
written for it, with one difference that the writer means to make: a track that stopped
without an end of track has one (`MidiFile.closed`).
-/
import Wk.MidiFile

namespace Wk.Smf

set_option autoImplicit false

/-! ## What the reader lets through -/

theorem vlqFrom_lt : ∀ {k value n : Nat} {r rest : Bytes},
    vlqFrom k value r = some (n, rest) → n < (value + 1) * 128 ^ k
  | 0, _, _, _, _, took => by cases took
  | _ + 1, _, _, [], _, took => by cases took
  | k + 1, value, n, byte :: r, rest, took => by
    have low : byte.toNat % 128 < 128 := Nat.mod_lt _ (by decide)
    simp only [vlqFrom] at took
    split at took
    · cases took
      have step : (value + 1) * 128 ≤ (value + 1) * 128 ^ (k + 1) :=
        Nat.mul_le_mul_left _ (Nat.le_self_pow (by omega) 128)
      omega
    · have below := vlqFrom_lt took
      have step : (value * 128 + byte.toNat % 128 + 1) * 128 ^ k ≤ (value + 1) * 128 * 128 ^ k :=
        Nat.mul_le_mul_right _ (by omega)
      calc n < (value * 128 + byte.toNat % 128 + 1) * 128 ^ k := below
        _ ≤ (value + 1) * 128 * 128 ^ k := step
        _ = (value + 1) * 128 ^ (k + 1) := by ring

/-- A quantity of four bytes at most. -/
theorem vlq_lt {n : Nat} {r rest : Bytes} (took : vlq r = some (n, rest)) : n < 2 ^ 28 := by
  have below := vlqFrom_lt took
  norm_num at below ⊢
  exact below

theorem take_size {n : Nat} {r data rest : Bytes} (took : take n r = some (data, rest)) : data.length = n := by
  unfold take at took
  split at took
  · next fits =>
      cases took
      exact List.length_take_of_le fits
  · cases took

/-- A status byte that a channel message can begin with: the reader keeps no other. -/
def Running (running : Option UInt8) : Prop :=
  ∀ status, running = some status → 0x80 ≤ status ∧ status ∉ [0xF0, 0xF7, 0xFF]

theorem channelDataLen_pos (status : UInt8) : 0 < channelDataLen status := by
  unfold channelDataLen
  split <;> decide

/-- What follows a delta is something the writer can express, and so is what runs on.
Cases as the reader's: a meta event, a dump, a message, a message under running status. -/
theorem readKind_writable {running running' : Option UInt8} {byte : UInt8} {r rest : Bytes} {kind : EventKind}
    (runs : Running running) (took : readKind running byte r = some (kind, running', rest)) {delta : Nat}
    (small : delta < 2 ^ 28) : Event.Writable { delta, kind } ∧ Running running' := by
  unfold readKind at took
  split at took
  · simp only [Option.bind_eq_bind, Option.bind_eq_some_iff, Prod.exists] at took
    obtain ⟨number, r₁, _, len, r₂, second, data, r₃, third, same⟩ := took
    cases same
    have size := take_size third
    have bound := vlq_lt second
    refine ⟨⟨small, fun _ other => (by cases other), fun _ _ same => ?_, fun _ other => (by cases other)⟩,
      fun _ none_runs => (by cases none_runs)⟩
    cases same
    omega
  · next notMeta =>
      split at took
      · simp only [Option.bind_eq_bind, Option.bind_eq_some_iff, Prod.exists] at took
        obtain ⟨len, r₂, second, data, r₃, third, same⟩ := took
        cases same
        have size := take_size third
        have bound := vlq_lt second
        refine ⟨⟨small, fun _ other => (by cases other), fun _ _ other => (by cases other), fun _ same => ?_⟩,
          fun _ none_runs => (by cases none_runs)⟩
        cases same
        omega
      · next notSysex =>
          split at took
          · next isStatus =>
              simp only [Option.bind_eq_bind, Option.bind_eq_some_iff, Prod.exists] at took
              obtain ⟨data, r₃, third, same⟩ := took
              cases same
              have system : byte ∉ [0xF0, 0xF7, 0xFF] := by
                simp only [List.mem_cons, List.not_mem_nil, or_false]
                rintro (first | second | third)
                · exact notSysex (.inl first)
                · exact notSysex (.inr second)
                · exact notMeta third
              refine ⟨⟨small, fun _ same => ?_, fun _ _ other => (by cases other), fun _ other => (by cases other)⟩,
                fun _ same => ?_⟩
              · cases same
                exact ⟨byte, data, rfl, isStatus, system, take_size third⟩
              · cases same
                exact ⟨isStatus, system⟩
          · simp only [Option.bind_eq_bind, Option.bind_eq_some_iff, Prod.exists] at took
            obtain ⟨status, found, data, r₃, third, same⟩ := took
            cases same
            have good := runs status found
            refine ⟨⟨small, fun _ same => ?_, fun _ _ other => (by cases other), fun _ other => (by cases other)⟩,
              fun _ same => ?_⟩
            · cases same
              refine ⟨status, byte :: data, rfl, good.1, good.2, ?_⟩
              have some_data := channelDataLen_pos status
              rw [List.length_cons, take_size third]
              omega
            · cases same
              exact good

theorem readEvent_writable {running running' : Option UInt8} {r rest : Bytes} {event : Event}
    (runs : Running running) (took : readEvent running r = some (event, running', rest)) :
    event.Writable ∧ Running running' := by
  obtain ⟨r₁, byte, r₂, first, _, third⟩ := readEvent_eq_some took
  exact readKind_writable runs third (vlq_lt first)

/-- A track as it is read: events that can be written, an end of track nowhere but last. -/
structure ReadTrack (track : List Event) : Prop where
  events : ∀ event ∈ track, event.Writable
  before : ∀ event ∈ track.dropLast, event.kind.isEndOfTrack = false

theorem parseTrackFrom_readTrack {running : Option UInt8} {r : Bytes} (runs : Running running) :
    ∀ {track : List Event}, parseTrackFrom running r = some track → ReadTrack track := by
  induction running, r using parseTrackFrom.induct with
  | case1 running =>
    intro track read
    rw [parseTrackFrom, if_pos rfl] at read
    cases read
    exact ⟨fun _ member => (by cases member), fun _ member => (by cases member)⟩
  | case2 running r some_bytes none_left =>
    intro track read
    rw [parseTrackFrom, if_neg some_bytes] at read
    split at read
    · cases read
    · next found => rw [none_left] at found; cases found
  | case3 running r some_bytes event running' rest took ends =>
    intro track read
    rw [parseTrackFrom_cons took, if_pos ends] at read
    cases read
    exact ⟨List.forall_mem_singleton.2 (readEvent_writable runs took).1, fun _ member => (by cases member)⟩
  | case4 running r some_bytes event running' rest took ends ih =>
    intro track read
    rw [parseTrackFrom_cons took, if_neg ends] at read
    obtain ⟨later, readLater, rfl⟩ := Option.map_eq_some_iff.1 read
    obtain ⟨writable, runs'⟩ := readEvent_writable runs took
    have tail := ih runs' readLater
    refine ⟨List.forall_mem_cons.2 ⟨writable, tail.events⟩, fun e member => ?_⟩
    cases later with
    | nil => cases member
    | cons next later =>
      rcases List.mem_cons.1 member with rfl | inner
      · exact Bool.eq_false_iff.2 ends
      · exact tail.before e inner

theorem parseTrack_readTrack {body : Bytes} {track : List Event} (read : parseTrack body = some track) :
    ReadTrack track :=
  parseTrackFrom_readTrack (fun _ none_runs => by cases none_runs) read

theorem parseChunks_readTrack {tracks : List (List Event)} {r : Bytes} (before : ∀ track ∈ tracks, ReadTrack track) :
    ∀ {out : List (List Event)}, parseChunks tracks r = .ok out → ∀ track ∈ out, ReadTrack track := by
  induction tracks, r using parseChunks.induct with
  | case1 tracks r none_left =>
    intro out parsed
    rw [parseChunks_none none_left] at parsed
    cases parsed
    exact before
  | case2 tracks r e failed =>
    intro out parsed
    rw [parseChunks_failed failed] at parsed
    cases parsed
  | case3 tracks r body rest track back chunk ih =>
    intro out parsed
    rw [parseChunks_track chunk, back] at parsed
    refine ih (fun t member => ?_) parsed
    rcases List.mem_append.1 member with old | new
    · exact before t old
    · rw [List.mem_singleton.1 new]
      exact parseTrack_readTrack back
  | case4 tracks r body rest bad chunk =>
    intro out parsed
    rw [parseChunks_track chunk, bad] at parsed
    cases parsed
  | case5 tracks r tag body rest chunk other ih =>
    intro out parsed
    rw [parseChunks_other chunk other] at parsed
    exact ih before parsed

theorem parse_read {bytes : Bytes} {f : MidiFile} (read : parse bytes = .ok f) :
    (1 ≤ f.ppq ∧ f.ppq ≤ 32767) ∧ ∀ track ∈ f.tracks, ReadTrack track := by
  simp only [parse, bind, Except.bind] at read
  split at read
  · cases read
  split at read
  · cases read
  split at read
  · cases read
  split at read
  · cases read
  split at read
  · cases read
  split at read
  · cases read
  next timed =>
    split at read
    · cases read
    · next tracks parsed =>
        cases read
        refine ⟨?_, parseChunks_readTrack (fun _ member => by cases member) parsed⟩
        dsimp only
        omega

/-! ## What it is written as -/

def endsTrack (track : List Event) : Bool := track.getLast?.any fun e => e.kind.isEndOfTrack

/-- A track with the end of track the writer gives it. -/
def closedTrack (track : List Event) : List Event :=
  if endsTrack track then track else track ++ [endOfTrack]

def MidiFile.closed (f : MidiFile) : MidiFile := { f with tracks := f.tracks.map closedTrack }

theorem closedTrack_eq_iff (track : List Event) : closedTrack track = track ↔ endsTrack track = true := by
  unfold closedTrack
  split
  · next ends => simp [ends]
  · next open_end => simp [open_end]

theorem writeTrack_closedTrack (track : List Event) : writeTrack (closedTrack track) = writeTrack track := by
  unfold closedTrack
  split
  · rfl
  · next open_end =>
      have added : (track ++ [endOfTrack]).getLast?.any (fun e => e.kind.isEndOfTrack) = true := by
        rw [List.getLast?_concat]
        rfl
      have missing : track.getLast?.any (fun e => e.kind.isEndOfTrack) = false := Bool.eq_false_iff.2 open_end
      rw [writeTrack, writeTrack, added, missing, List.flatMap_append, List.flatMap_singleton]
      simp only [if_true, if_false, List.append_nil, Bool.false_eq_true]
      rfl

/-- The writer makes no difference between a file and the same with its tracks closed. -/
theorem write_closed (f : MidiFile) : write f.closed = write f := by
  have chunk : ∀ track, writeChunk (closedTrack track) = writeChunk track := fun track => by
    rw [writeChunk, writeTrack_closedTrack, writeChunk]
  simp only [write, MidiFile.closed, List.length_map, List.flatMap_map, chunk]

theorem ReadTrack.closed {track : List Event} (good : ReadTrack track) : WritableTrack (closedTrack track) := by
  unfold closedTrack
  split
  · next ends =>
      have some_event : track ≠ [] := by
        rintro rfl
        cases ends
      have isLast : (track.getLast some_event).kind.isEndOfTrack = true := by
        rwa [endsTrack, List.getLast?_eq_some_getLast some_event] at ends
      exact ⟨good.events, track.dropLast, track.getLast some_event,
        (List.dropLast_append_getLast some_event).symm, isLast, good.before⟩
  · next open_end =>
      refine ⟨fun e member => ?_, track, endOfTrack, rfl, rfl, fun e member => ?_⟩
      · rcases List.mem_append.1 member with inner | added
        · exact good.events e inner
        · rw [List.mem_singleton.1 added]
          exact endOfTrack_valid.writable
      · -- The last event of a track that stopped is not an end of track either.
        have some_event : track ≠ [] := List.ne_nil_of_mem member
        have notLast : (track.getLast some_event).kind.isEndOfTrack = false := by
          rw [endsTrack, List.getLast?_eq_some_getLast some_event] at open_end
          exact Bool.eq_false_iff.2 open_end
        rw [← List.dropLast_append_getLast some_event] at member
        rcases List.mem_append.1 member with inner | last
        · exact good.before e inner
        · rwa [List.mem_singleton.1 last]

theorem parse_write_closed {bytes : Bytes} {f : MidiFile} (read : parse bytes = .ok f)
    (short : ∀ track ∈ f.tracks, (writeTrack track).length < 2 ^ 32) : parse (write f) = .ok f.closed := by
  obtain ⟨range, tracks⟩ := parse_read read
  have writable : ∀ track ∈ f.closed.tracks, WritableTrack track := by
    intro track member
    obtain ⟨original, known, rfl⟩ := List.mem_map.1 member
    exact (tracks original known).closed
  have fits : ∀ track ∈ f.closed.tracks, (writeTrack track).length < 2 ^ 32 := by
    intro track member
    obtain ⟨original, known, rfl⟩ := List.mem_map.1 member
    rw [writeTrack_closedTrack]
    exact short original known
  rw [← write_closed]
  exact (@parse_write_ok_iff f.closed range).2 ((parseChunks_iff writable).2 fits)

theorem closed_eq_iff (f : MidiFile) : f.closed = f ↔ ∀ track ∈ f.tracks, endsTrack track = true := by
  constructor
  · intro same track member
    have all := congrArg MidiFile.tracks same
    exact (closedTrack_eq_iff track).1 (List.map_inj_left.1 (all.trans (List.map_id' _).symm) track member)
  · intro all
    have same : f.tracks.map closedTrack = f.tracks :=
      (List.map_congr_left fun track member => (closedTrack_eq_iff track).2 (all track member)).trans
        (List.map_id' _)
    rw [MidiFile.closed, same]

/-- **What was read reads back**, as long as its tracks still fit their chunks: as itself
with its tracks closed, which is itself exactly when every track ends in an end of track. -/
theorem parse_write_reread {bytes : Bytes} {f : MidiFile} (read : parse bytes = .ok f)
    (short : ∀ track ∈ f.tracks, (writeTrack track).length < 2 ^ 32) :
    parse (write f) = .ok f.closed ∧
      (parse (write f) = .ok f ↔ ∀ track ∈ f.tracks, endsTrack track = true) := by
  have back := parse_write_closed read short
  refine ⟨back, ?_⟩
  rw [back, Except.ok.injEq]
  exact closed_eq_iff f

section Poles

/-- A vendor's chunk, then a track with running status and an escape, which just stops. -/
def stoppedBytes : Bytes :=
  MThd ++ [0, 0, 0, 6, 0, 1, 0, 1, 0, 96] ++ [0x58, 0x54, 0x72, 0x61, 0, 0, 0, 1, 7] ++
    MTrk ++ [0, 0, 0, 11] ++ [0, 0x90, 60, 100, 24, 64, 100, 0, 0xF7, 1, 5]

def stoppedFile : MidiFile where
  ppq := 96
  tracks := [[{ delta := 0, kind := .midi [0x90, 60, 100] }, { delta := 24, kind := .midi [0x90, 64, 100] },
    { delta := 0, kind := .sysex [5] }]]

theorem parse_stopped : parse stoppedBytes = .ok stoppedFile := by
  have track : parseTrack [0, 0x90, 60, 100, 24, 64, 100, 0, 0xF7, 1, 5] = some
      [{ delta := 0, kind := .midi [0x90, 60, 100] }, { delta := 24, kind := .midi [0x90, 64, 100] },
        { delta := 0, kind := .sysex [5] }] := by
    have first : readEvent none [0, 0x90, 60, 100, 24, 64, 100, 0, 0xF7, 1, 5] =
        some ({ delta := 0, kind := .midi [0x90, 60, 100] }, some 0x90, [24, 64, 100, 0, 0xF7, 1, 5]) := by rfl
    have second : readEvent (some 0x90) [24, 64, 100, 0, 0xF7, 1, 5] =
        some ({ delta := 24, kind := .midi [0x90, 64, 100] }, some 0x90, [0, 0xF7, 1, 5]) := by rfl
    have third : readEvent (some 0x90) [0, 0xF7, 1, 5] =
        some ({ delta := 0, kind := .sysex [5] }, none, []) := by rfl
    have last : parseTrackFrom none [] = some [] := by rw [parseTrackFrom, if_pos rfl]
    rw [parseTrack, parseTrackFrom_cons first, parseTrackFrom_cons second, parseTrackFrom_cons third, last]
    rfl
  have vendor : readChunk (stoppedBytes.drop 14) = some (.ok ([0x58, 0x54, 0x72, 0x61], [7], stoppedBytes.drop 23)) := by
    decide +kernel
  have chunk : readChunk (stoppedBytes.drop 23) =
      some (.ok (MTrk, [0, 0x90, 60, 100, 24, 64, 100, 0, 0xF7, 1, 5], [])) := by decide +kernel
  have tracks : parseChunks [] (stoppedBytes.drop 14) = .ok stoppedFile.tracks := by
    rw [parseChunks_other vendor (by decide), parseChunks_track chunk, track]
    exact parseChunks_end _
  have tag : take 4 stoppedBytes = some (MThd, stoppedBytes.drop 4) := by rfl
  have len : u32 (stoppedBytes.drop 4) = some (6, stoppedBytes.drop 8) := by rfl
  have header : take 6 (stoppedBytes.drop 8) = some ([0, 1, 0, 1, 0, 96], stoppedBytes.drop 14) := by rfl
  simp only [parse, tag, orTruncated, bind, Except.bind, len, header, tracks]
  rw [if_neg (by simp), if_neg (by decide), if_neg (by decide)]
  rfl

theorem parse_write_reread_stopped :
    parse (write stoppedFile) = .ok stoppedFile.closed ∧
      (parse (write stoppedFile) = .ok stoppedFile ↔ ∀ track ∈ stoppedFile.tracks, endsTrack track = true) :=
  parse_write_reread parse_stopped (by decide)

/-- A track that stopped comes back closed. -/
theorem stopped_changes :
    parse stoppedBytes = .ok stoppedFile ∧ parse (write stoppedFile) ≠ .ok stoppedFile := by
  refine ⟨parse_stopped, fun same => ?_⟩
  rw [parse_write_closed parse_stopped (by decide), Except.ok.injEq, closed_eq_iff] at same
  exact absurd (same _ (List.mem_singleton_self _)) (by decide)

end Poles

end Wk.Smf
