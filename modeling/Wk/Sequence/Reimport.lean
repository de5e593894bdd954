/-
# Wk.Sequence.Reimport -- a song exported and imported again

What `toMidiFile` writes of a song and `fromMidiFile` reads back sounds alike, cut where the
new patterns begin: the export lays the notes out (`laid_apart`), each part is read back
(`readParts`), and the notes are cut into patterns (`mem_pieces`, `sounds_of_import`).  The
export writes the notes of muted tracks too, and a note-on without velocity is a note-off.

* `reimported`: the song that comes back sounds the same, up to the cuts, exactly when the
  notes with a velocity are those of the unmuted tracks.

Pole: `muted_returns` (a muted track comes back and is heard).
-/
import Wk.Sequence.Pairing
import Wk.Sequence.Recut

namespace Wk.Sequence

set_option autoImplicit false

open Smf (Event EventKind MidiFile)

/-! ## The notes laid out -/

/-- What the export expects of a song: parts on channels of their own, and in every pattern
notes that lie inside it and, where they are of one part and pitch, do not overlap. -/
structure SongData.Sheet (song : SongData) : Prop where
  parts : song.tracks.length ≤ maxTracks
  channels : (song.tracks.map Track.channel).Nodup
  inside : ∀ pattern ∈ song.patterns, ∀ notes ∈ pattern.notes, ∀ note ∈ notes, note.Inside pattern.steps
  apart : ∀ pattern ∈ song.patterns, ∀ notes ∈ pattern.notes, notes.Pairwise fun a b =>
    a.pitch = b.pitch → a.step + a.len ≤ b.step ∨ b.step + b.len ≤ a.step

/-- The song fits the patterns there can be, of `width` steps each. -/
def SongData.Fits (song : SongData) (width : Int) : Prop :=
  ∀ index < song.tracks.length, ∀ p ∈ laid song.toSong song.chain index, p.stop ≤ maxPatterns * width

/-- The notes of one pattern laid out from `base` on. -/
def laidAt (song : Song) (index : Nat) (e : Nat × Int) : List Laid :=
  match song.patterns[e.1]? with
  | none => []
  | some pattern => (pattern.track index).map fun note : Note =>
    { start := e.2 + note.step, stop := e.2 + note.end_ pattern.steps, pitch := note.pitch, vel := note.vel }

/-- The notes of an order laid out from `base` on. -/
def laidFrom (song : Song) (base : Int) (order : List Nat) (index : Nat) : List Laid :=
  (order.zip (startsFrom song base order).1).flatMap (laidAt song index)

theorem laidFrom_cons (song : Song) (base : Int) (slot : Nat) (order : List Nat) (index : Nat) :
    laidFrom song base (slot :: order) index =
      laidAt song index (slot, base) ++ laidFrom song (base + lengthOf song slot) order index := rfl

section Layout

variable {song : SongData} {index : Nat}

theorem mem_track {pattern : Pattern} {note : Note} (member : note ∈ pattern.track index) :
    pattern.track index ∈ pattern.notes := by
  unfold Pattern.track at member ⊢
  rw [List.getD_eq_getElem?_getD] at member ⊢
  cases found : pattern.notes[index]? with
  | none =>
    rw [found] at member
    cases member
  | some notes => exact List.mem_of_getElem? found

/-- In one pattern. -/
theorem laidAt_apart (sheet : song.Sheet) (slot : Nat) (base : Int) :
    (∀ p ∈ laidAt song.toSong index (slot, base), base ≤ p.start ∧ p.start < p.stop ∧
      p.stop ≤ base + lengthOf song.toSong slot ∧ 0 ≤ p.pitch ∧ p.pitch ≤ 127) ∧
    (laidAt song.toSong index (slot, base)).Pairwise Apart := by
  unfold laidAt lengthOf
  dsimp only
  cases found : song.patterns[slot]? with
  | none => exact ⟨fun p member => (by cases member), List.Pairwise.nil⟩
  | some pattern =>
    have known := List.mem_of_getElem? found
    have stop : ∀ note ∈ pattern.track index, note.end_ pattern.steps = note.step + note.len :=
      fun note member => min_eq_left (sheet.inside pattern known _ (mem_track member) note member).last
    dsimp only [Option.elim]
    refine ⟨fun p member => ?_, ?_⟩
    · obtain ⟨note, inner, rfl⟩ := List.mem_map.1 member
      obtain ⟨step, len, last, low, high⟩ := sheet.inside pattern known _ (mem_track inner) note inner
      dsimp only
      rw [stop note inner]
      omega
    · rw [List.pairwise_map]
      cases notes : pattern.track index with
      | nil => exact List.Pairwise.nil
      | cons first rest =>
        have inner : first ∈ pattern.track index := notes ▸ List.mem_cons_self ..
        have apart := sheet.apart pattern known _ (mem_track inner)
        rw [notes] at apart stop
        refine apart.imp_of_mem fun {a b} here there apart pitch => ?_
        dsimp only at pitch ⊢
        rw [stop a here, stop b there]
        have either := apart pitch
        omega

/-- In an order.  Induction on it: what is laid out later begins where this pattern stops. -/
theorem laidFrom_apart (sheet : song.Sheet) : ∀ (order : List Nat) (base : Int),
    (∀ p ∈ laidFrom song.toSong base order index, base ≤ p.start ∧ p.start < p.stop ∧ 0 ≤ p.pitch ∧ p.pitch ≤ 127) ∧
    (laidFrom song.toSong base order index).Pairwise Apart
  | [], base => ⟨fun p member => (by cases member), List.Pairwise.nil⟩
  | slot :: order, base => by
    obtain ⟨here, apart⟩ := @laidAt_apart song index sheet slot base
    obtain ⟨there, apartThere⟩ := laidFrom_apart sheet order (base + lengthOf song.toSong slot)
    have low : 0 ≤ lengthOf song.toSong slot := by
      rw [← length_stepsOf]
      omega
    rw [laidFrom_cons]
    refine ⟨fun p member => ?_, List.pairwise_append.2 ⟨apart, apartThere, fun p mine q yours _ => ?_⟩⟩
    · rcases List.mem_append.1 member with now | later
      · have bounds := here p now
        omega
      · have bounds := there p later
        omega
    · have bounds := here p mine
      have bounds' := there q yours
      omega

/-- **The notes of a part**, where the chain puts them. -/
theorem laid_apart (sheet : song.Sheet) {width : Int} (high : width ≤ maxSteps) (fits : song.Fits width)
    (known : index < song.tracks.length) :
    (∀ p ∈ laid song.toSong song.chain index, p.Proper) ∧ (laid song.toSong song.chain index).Pairwise Apart := by
  obtain ⟨bounds, apart⟩ := @laidFrom_apart song index sheet song.chain 0
  refine ⟨fun p member => ?_, apart⟩
  obtain ⟨low, less, pitch⟩ := bounds p member
  have stop := fits index known p member
  have room : (maxPatterns : Int) * width ≤ lastStep := by
    have bound : lastStep = 16 * 64 := rfl
    have sixteen : (maxPatterns : Int) = 16 := rfl
    have most : maxSteps = 64 := rfl
    rw [sixteen, bound]
    omega
  exact ⟨low, less, stop.trans room, pitch⟩

end Layout

/-! ## The parts read back -/

section Parts

variable {song : SongData} {width : Int}

theorem TimedMsg.le_trans (a b c : TimedMsg) (ab : a.le b = true) (bc : b.le c = true) : a.le c = true := by
  rw [TimedMsg.le_iff] at ab bc ⊢
  rcases ab with less | ⟨same, on⟩
  · rcases bc with less' | ⟨same', _⟩
    · exact .inl (less.trans less')
    · exact .inl (same' ▸ less)
  · rcases bc with less' | ⟨same', on'⟩
    · exact .inl (same ▸ less')
    · exact .inr ⟨same.trans same', fun here => on' (on here)⟩

theorem TimedMsg.le_total (a b : TimedMsg) : (a.le b || b.le a) = true := by
  rw [Bool.or_eq_true, TimedMsg.le_iff, TimedMsg.le_iff]
  rcases lt_trichotomy a.tick b.tick with less | same | more
  · exact .inl (.inl less)
  · cases on : b.isOn with
    | true => exact .inl (.inr ⟨same, fun _ => rfl⟩)
    | false => exact .inr (.inr ⟨same.symm, fun here => by cases here⟩)
  · exact .inr (.inl more)

/-- The messages of a part of the song, sorted. -/
theorem score_sorted (sheet : song.Sheet) (high : width ≤ maxSteps) (fits : song.Fits width) {index : Nat}
    (known : index < song.tracks.length) (channel : UInt8) : Score channel (laid song.toSong song.chain index)
      ((timed song.toSong song.chain channel index).mergeSort TimedMsg.le) where
  proper := (laid_apart sheet high fits known).1
  apart := (laid_apart sheet high fits known).2
  sorted := List.pairwise_mergeSort TimedMsg.le_trans TimedMsg.le_total _
  perm := (List.mergeSort_perm ..).trans (by rw [timed_eq])

/-- The distances add up to the ticks. -/
theorem readEvents_deltas : ∀ {ms : List TimedMsg} {previous : Nat} {st : Import} {rest : List Event},
    (∀ m ∈ ms, previous ≤ m.tick) → (ms.Pairwise fun a b => TimedMsg.le a b = true) →
      ∃ tick, readEvents ticksPerQuarter previous st (deltas previous ms ++ rest) =
        readEvents ticksPerQuarter tick (readMessages st ms) rest
  | [], previous, _, _, _, _ => ⟨previous, rfl⟩
  | m :: ms, previous, st, rest, low, sorted => by
    obtain ⟨first, later⟩ := List.pairwise_cons.1 sorted
    have next : ∀ m' ∈ ms, m.tick ≤ m'.tick := fun m' member => by
      have order := TimedMsg.le_iff.1 (first m' member)
      omega
    have tick : previous + (m.tick - previous) = m.tick := Nat.add_sub_cancel' (low m (List.mem_cons_self ..))
    obtain ⟨last, read⟩ := @readEvents_deltas ms m.tick (message ticksPerQuarter m.tick st m.msg) rest next later
    refine ⟨last, ?_⟩
    rw [deltas, List.cons_append, readEvents]
    dsimp only
    rw [tick, read]
    rfl

/-- A part that the file has is read by its messages. -/
theorem readTrack_part {order : List Nat} {track : Track} {index : Nat} {events : List Event} {st : Import}
    (written : partEvents song.toSong order track index = some events)
    (closes : (readMessages st ((timed song.toSong order track.channel index).mergeSort TimedMsg.le)).opened = []) :
    readTrack ticksPerQuarter st events =
      readMessages st ((timed song.toSong order track.channel index).mergeSort TimedMsg.le) := by
  unfold partEvents at written
  dsimp only at written
  split at written
  · cases written
  · obtain ⟨tick, read⟩ := @readEvents_deltas ((timed song.toSong order track.channel index).mergeSort TimedMsg.le) 0 st
      [{ delta := tickOf (startsFrom song.toSong 0 order).2 -
        ((((timed song.toSong order track.channel index).mergeSort TimedMsg.le).getLast?.map TimedMsg.tick).getD 0)
         kind := .endOfTrack }]
      (fun m _ => Nat.zero_le m.tick)
      (List.pairwise_mergeSort TimedMsg.le_trans TimedMsg.le_total _)
    cases written
    unfold readTrack
    rw [List.cons_append]
    unfold readEvents
    dsimp only [EventKind.trackName]
    rw [Nat.zero_add, read]
    unfold readEvents
    dsimp only [EventKind.endOfTrack]
    unfold readEvents
    dsimp only
    rw [closes]
    rfl

theorem trackFor_new {cs : List UInt8} {c : UInt8} (fresh : c ∉ cs) (room : cs.length < maxTracks) :
    trackFor cs c = some (cs.length, cs ++ [c]) := by
  have missing : (cs.findIdx? fun d => d = c) = none := by
    rw [List.findIdx?_eq_none_iff]
    intro d member
    rw [decide_eq_false_iff_not]
    rintro rfl
    exact fresh member
  rw [trackFor, missing]
  exact if_neg (by omega)

theorem trackFor_known {cs : List UInt8} {c : UInt8} (fresh : c ∉ cs) :
    trackFor (cs ++ [c]) c = some (cs.length, cs ++ [c]) := by
  have missing : (cs.findIdx? fun d => d = c) = none := by
    rw [List.findIdx?_eq_none_iff]
    intro d member
    rw [decide_eq_false_iff_not]
    rintro rfl
    exact fresh member
  have found : ((cs ++ [c]).findIdx? fun d => d = c) = some cs.length := by
    rw [List.findIdx?_append, missing]
    simp
  rw [trackFor, found]

/-- One part of the song: nothing was written of it, or it is read back as the next track. -/
theorem readPartEvents (sheet : song.Sheet) (high : width ≤ maxSteps) (fits : song.Fits width) {track : Track}
    {index : Nat} (known : index < song.tracks.length) {st : Import} (fresh : track.channel ∉ st.channels)
    (room : st.channels.length < maxTracks) (closed : st.opened = []) :
    (partEvents song.toSong song.chain track index = none ∧ laid song.toSong song.chain index = []) ∨
    ∃ events, partEvents song.toSong song.chain track index = some events ∧
      (readTrack ticksPerQuarter st events).channels = st.channels ++ [track.channel] ∧
      (readTrack ticksPerQuarter st events).opened = [] ∧
      ∀ n, n ∈ (readTrack ticksPerQuarter st events).notes ↔ n ∈ st.notes ∨
        ∃ p ∈ laid song.toSong song.chain index, p.vel ≠ 0 ∧ n = p.imported st.channels.length := by
  cases written : partEvents song.toSong song.chain track index with
  | none =>
    refine .inl ⟨rfl, ?_⟩
    unfold partEvents at written
    dsimp only at written
    split at written
    · next empty =>
        rw [timed_eq, List.isEmpty_iff, List.flatMap_eq_nil_iff] at empty
        refine List.eq_nil_iff_forall_not_mem.2 fun p member => ?_
        cases empty p member
    · cases written
  | some events =>
    refine .inr ⟨events, rfl, ?_⟩
    have some_note : (timed song.toSong song.chain track.channel index).mergeSort TimedMsg.le ≠ [] := by
      intro empty
      have none_timed := (List.mergeSort_perm (timed song.toSong song.chain track.channel index) TimedMsg.le).symm
      rw [empty, List.perm_nil] at none_timed
      rw [partEvents, none_timed] at written
      cases written
    obtain ⟨channels, opened, notes⟩ := readPart (score_sorted sheet high fits known track.channel) track.inRange
      some_note (trackFor_new fresh room) (trackFor_known fresh) closed
    rw [readTrack_part written opened]
    exact ⟨channels, opened, notes⟩

/-- **Parts one after another.**  Induction on them: each takes the next track, and keeps it. -/
theorem readParts (sheet : song.Sheet) (high : width ≤ maxSteps) (fits : song.Fits width) :
    ∀ (parts : List (Track × Nat)) (st : Import), (∀ e ∈ parts, e.2 < song.tracks.length) →
      (st.channels ++ parts.map fun e => e.1.channel).Nodup → st.channels.length + parts.length ≤ maxTracks →
      st.opened = [] → ∀ out, out = (parts.filterMap fun e => partEvents song.toSong song.chain e.1 e.2).foldl
          (readTrack ticksPerQuarter) st →
        (∃ more, out.channels = st.channels ++ more ∧ more.Sublist (parts.map fun e => e.1.channel)) ∧
        (∀ e ∈ parts, laid song.toSong song.chain e.2 ≠ [] → e.1.channel ∈ out.channels) ∧
        ∀ n, n ∈ out.notes ↔ n ∈ st.notes ∨ ∃ e ∈ parts, ∃ p ∈ laid song.toSong song.chain e.2, p.vel ≠ 0 ∧
          ∃ j, out.channels[j]? = some e.1.channel ∧ n = p.imported j
  | [], st, _, _, _, _, out, result => by
    rw [result]
    exact ⟨⟨[], (List.append_nil _).symm, List.Sublist.refl _⟩, fun e member => (by cases member), fun n => by simp⟩
  | e :: parts, st, known, nodup, room, closed, out, result => by
    have fresh : e.1.channel ∉ st.channels := fun here =>
      (List.nodup_append.1 nodup).2.2 _ here _ (List.mem_cons_self ..) rfl
    have rest_known : ∀ e' ∈ parts, e'.2 < song.tracks.length := fun e' member =>
      known e' (List.mem_cons_of_mem _ member)
    rw [List.length_cons] at room
    rcases readPartEvents sheet high fits (known e (List.mem_cons_self ..)) fresh (by omega) closed with
      ⟨silent, empty⟩ | ⟨events, written, channels, opened, notes⟩
    · simp only [List.filterMap_cons, silent] at result
      have fewer : (st.channels ++ parts.map fun e => e.1.channel).Nodup :=
        nodup.sublist (List.Sublist.append_left (List.sublist_cons_self _ _) _)
      obtain ⟨⟨more, grown, sub⟩, heard, notes⟩ := readParts sheet high fits parts st rest_known fewer (by omega) closed
        out result
      refine ⟨⟨more, grown, sub.trans (List.sublist_cons_self _ _)⟩, fun e' member some_note => ?_,
        fun n => (notes n).trans ?_⟩
      · rcases List.mem_cons.1 member with rfl | later
        · exact absurd empty some_note
        · exact heard e' later some_note
      · simp [empty]
    · simp only [List.filterMap_cons, written, List.foldl_cons] at result
      have split : (readTrack ticksPerQuarter st events).channels ++ (parts.map fun e => e.1.channel) =
          st.channels ++ (e :: parts).map fun e => e.1.channel := by
        rw [channels, List.append_assoc]
        rfl
      have longer : (readTrack ticksPerQuarter st events).channels.length = st.channels.length + 1 := by
        rw [channels, List.length_append]
        rfl
      obtain ⟨⟨more, grown, sub⟩, heard, later⟩ := readParts sheet high fits parts (readTrack ticksPerQuarter st events)
        rest_known (split ▸ nodup) (by omega) opened out result
      have all : out.channels = st.channels ++ e.1.channel :: more := by
        rw [grown, channels, List.append_assoc]
        rfl
      have apart : out.channels.Nodup := by
        rw [all]
        exact nodup.sublist (List.Sublist.append_left (sub.cons_cons _) _)
      have own : out.channels[st.channels.length]? = some e.1.channel := by
        rw [all, List.getElem?_append_right le_rfl, Nat.sub_self]
        rfl
      have one : ∀ j, out.channels[j]? = some e.1.channel ↔ j = st.channels.length := fun j => by
        refine ⟨fun there => ?_, fun same => same ▸ own⟩
        exact (List.getElem?_inj (List.getElem?_eq_some_iff.1 there).1 apart).1 (there.trans own.symm)
      refine ⟨⟨e.1.channel :: more, all, sub.cons_cons _⟩, fun e' member some_note => ?_, fun n => ?_⟩
      · rcases List.mem_cons.1 member with rfl | behind
        · exact List.mem_of_getElem? own
        · exact heard e' behind some_note
      · rw [later, notes, or_assoc]
        refine or_congr_right ?_
        simp only [List.mem_cons, exists_eq_or_imp, one, exists_eq_left]

end Parts

/-! ## The song that is read -/

section Imported

variable {width : Int} {count : Nat}

/-- Patterns of one length begin at its multiples. -/
theorem zip_startsFrom {song : Song} : ∀ (m k : Nat) (base : Int), (∀ i, k ≤ i → i < k + m → lengthOf song i = width) →
    (List.range' k m).zip (startsFrom song base (List.range' k m)).1 =
      (List.range' k m).map fun i : Nat => (i, base + ((i : Int) - k) * width)
  | 0, _, _, _ => rfl
  | m + 1, k, base, same => by
    have length : lengthOf song k = width := same k le_rfl (by omega)
    have rest := zip_startsFrom m (k + 1) (base + width) fun i low high => same i (by omega) (by omega)
    rw [List.range'_succ, startsFrom]
    dsimp only
    rw [length, List.zip_cons_cons, rest, List.map_cons]
    congr 1
    · simp
    · refine List.map_congr_left fun i _ => ?_
      push_cast
      congr 1
      ring

/-- What a bank of patterns played in order lays out. -/
theorem mem_laid_filled {holds : Nat → Nat → Note → Prop} {song : Song} (filled : Filled width count holds song.patterns)
    (inside : ∀ i j note, holds i j note → note.step + note.len ≤ width) {j : Nat} {p : Laid} :
    p ∈ laid song (List.range count) j ↔ ∃ (i : Nat) (note : Note), holds i j note ∧
      p = { start := i * width + note.step, stop := i * width + (note.step + note.len), pitch := note.pitch
            vel := note.vel } := by
  have lengths : ∀ i, 0 ≤ i → i < 0 + count → lengthOf song i = width := by
    intro i _ high
    rw [Nat.zero_add, ← filled.length] at high
    rw [lengthOf, List.getElem?_eq_getElem high]
    exact (filled.each _ (List.getElem_mem high)).1
  unfold laid
  rw [List.range_eq_range', zip_startsFrom count 0 0 lengths, List.flatMap_map, List.mem_flatMap]
  constructor
  · rintro ⟨i, _, member⟩
    dsimp only at member
    cases found : song.patterns[i]? with
    | none =>
      rw [found] at member
      cases member
    | some pattern =>
      rw [found] at member
      obtain ⟨note, inner, rfl⟩ := List.mem_map.1 member
      have held := (filled.notes i j note).1 ⟨pattern, found, inner⟩
      have steps := (filled.each pattern (List.mem_of_getElem? found)).1
      have stop : note.end_ pattern.steps = note.step + note.len := by
        rw [steps]
        exact min_eq_left (inside i j note held)
      refine ⟨i, note, held, ?_⟩
      simp [stop]
  · rintro ⟨i, note, held, rfl⟩
    obtain ⟨pattern, found, inner⟩ := (filled.notes i j note).2 held
    have known := (List.getElem?_eq_some_iff.1 found).1
    have steps := (filled.each pattern (List.mem_of_getElem? found)).1
    have stop : note.end_ pattern.steps = note.step + note.len := by
      rw [steps]
      exact min_eq_left (inside i j note held)
    refine ⟨i, ?_, ?_⟩
    · rw [← List.range_eq_range', List.mem_range, ← filled.length]
      exact known
    · dsimp only
      rw [found]
      refine List.mem_map.2 ⟨note, inner, ?_⟩
      simp [stop]

/-- As a note of the song, on its channel. -/
def Imported.whole (n : Imported) (channel : UInt8) : Sound :=
  { channel, pitch := n.pitch, start := n.start, len := n.len, vel := n.vel }

/-- How many patterns the import makes. -/
def patternCount (width : Int) (notes : List Imported) : Nat :=
  (min (max (((notes.map fun n => n.start + n.len).max?.getD 0 + width - 1) / width) 1) maxPatterns).toNat

/-- There are patterns for every note that fits. -/
theorem le_patternCount (positive : 0 < width) {notes : List Imported} {n : Imported} (member : n ∈ notes)
    (fits : n.start + n.len ≤ maxPatterns * width) : n.start + n.len ≤ patternCount width notes * width := by
  have below : n.start + n.len ≤ (notes.map fun n => n.start + n.len).max?.getD 0 := by
    cases most : (notes.map fun n => n.start + n.len).max? with
    | none =>
      rw [List.max?_eq_none_iff, List.map_eq_nil_iff] at most
      rw [most] at member
      cases member
    | some stop => exact (List.max?_eq_some_iff.1 most).2 _ (List.mem_map_of_mem member)
  unfold patternCount
  generalize (notes.map fun n => n.start + n.len).max?.getD 0 = stop at below
  have whole := Int.mul_ediv_add_emod (stop + width - 1) width
  have rest := Int.emod_lt_of_pos (stop + width - 1) positive
  generalize (stop + width - 1) / width = q at whole ⊢
  have count : ((min (max q 1) (maxPatterns : Int)).toNat : Int) = min (max q 1) maxPatterns := by
    have sixteen : (maxPatterns : Int) = 16 := rfl
    rw [sixteen]
    omega
  rw [count]
  rcases min_choice (max q 1) (maxPatterns : Int) with least | least
  · rw [least]
    have more : q * width ≤ max q 1 * width := mul_le_mul_of_nonneg_right (le_max_left q 1) positive.le
    rw [mul_comm] at whole
    omega
  · rw [least]
    exact fits

/-- What has been read can be put into patterns of `width` steps. -/
structure Import.Good (width : Int) (st : Import) : Prop where
  room : st.channels.length ≤ maxTracks
  range : ∀ c ∈ st.channels, c < 16
  notes : ∀ n ∈ st.notes, n.track < st.channels.length ∧ 0 ≤ n.start ∧ n.start + n.len ≤ maxPatterns * width ∧
    0 ≤ n.pitch ∧ n.pitch ≤ 127 ∧ n.vel ≠ 0

/-- What is left of a sound in one bar, and the bar's note. -/
theorem pieceOf_iff (positive : 0 < width) {n : Imported} (start : 0 ≤ n.start) {channel : UInt8} {sound : Sound} :
    Sound.PieceOf width (n.whole channel) sound ↔ sound.channel = channel ∧ ∃ (i : Nat) (note : Note),
      n.Piece width i n.track note ∧ sound.pitch = note.pitch ∧ sound.start = i * width + note.step ∧
        sound.len = note.len ∧ sound.vel = note.vel := by
  constructor
  · rintro ⟨same, pitch, vel, some_step, bar, from_, stop⟩
    dsimp only [Imported.whole] at same pitch vel from_ stop
    rw [add_mul, one_mul] at stop
    have low : 0 ≤ bar := by
      by_contra negative
      have under : (bar + 1) * width ≤ 0 * width := mul_le_mul_of_nonneg_right (by omega) positive.le
      rw [add_mul, one_mul, zero_mul] at under
      omega
    obtain ⟨i, rfl⟩ := Int.eq_ofNat_of_zero_le low
    refine ⟨same, i, { step := sound.start - i * width, pitch := sound.pitch, len := sound.len, vel := sound.vel },
      ⟨rfl, pitch, vel, some_step, ?_, ?_⟩, rfl, ?_, rfl, rfl⟩
    · dsimp only
      omega
    · dsimp only
      omega
    · dsimp only
      omega
  · rintro ⟨same, i, note, ⟨_, pitch, vel, some_step, from_, stop⟩, pitch', start', len', vel'⟩
    refine ⟨same, pitch'.trans pitch, vel'.trans vel, len' ▸ some_step, i, ?_, ?_⟩
    · rw [start']
      exact from_
    · rw [start', len', add_mul, one_mul]
      exact stop

/-- **What the imported song sounds** are the pieces of the notes that were read. -/
theorem sounds_of_import {file : MidiFile} {stepsPerPattern : Int}
    (good : (file.tracks.foldl (readTrack file.ppq) {}).Good (clampInt 1 maxSteps stepsPerPattern)) (sound : Sound) :
    (fromMidiFile file stepsPerPattern).Sounds sound ↔
      ∃ n ∈ (file.tracks.foldl (readTrack file.ppq) {}).notes, ∃ c,
        (file.tracks.foldl (readTrack file.ppq) {}).channels[n.track]? = some c ∧
        Sound.PieceOf (clampInt 1 maxSteps stepsPerPattern) (n.whole c) sound := by
  have range : minSteps ≤ clampInt 1 maxSteps stepsPerPattern ∧ clampInt 1 maxSteps stepsPerPattern ≤ maxSteps :=
    clampInt_mem (by decide) stepsPerPattern
  have positive : 0 < clampInt 1 maxSteps stepsPerPattern := range.1
  unfold fromMidiFile
  dsimp only
  generalize clampInt 1 maxSteps stepsPerPattern = width at good range positive ⊢
  generalize file.tracks.foldl (readTrack file.ppq) {} = st at good ⊢
  by_cases empty : st.notes.isEmpty
  · rw [if_pos empty]
    rw [List.isEmpty_iff] at empty
    rw [empty]
    constructor
    · rintro ⟨_, _, _, _, p, member, _⟩
      cases member
    · rintro ⟨n, member, _⟩
      cases member
  · rw [if_neg empty]
    have placeable : ∀ n ∈ st.notes, n.Good width (patternCount width st.notes) := by
      intro n member
      obtain ⟨track, start, stop, low, high, vel⟩ := good.notes n member
      exact ⟨track.trans_le good.room, start, le_patternCount positive member stop, ⟨low, high⟩, vel⟩
    have filled := Filled.addNotes positive placeable (@filled_empty width (patternCount width st.notes) range)
    have inside : ∀ i j note, (False ∨ ∃ n ∈ st.notes, n.Piece width i j note) → note.step + note.len ≤ width := by
      rintro i j note (⟨⟨⟩⟩ | ⟨n, member, _, _, _, here⟩)
      exact (inBar_inside positive here (placeable n member).stop).2.2.2
    have tracks : ∀ (j : Nat) (c : UInt8), st.channels[j]? = some c →
        (st.channels.map (fun channel => Track.of channel false) ++
          SongData.new.tracks.drop st.channels.length)[j]? = some (Track.of c false) ∧
        (Track.of c false).channel = c := by
      intro j c found
      have known := (List.getElem?_eq_some_iff.1 found).1
      refine ⟨?_, min_channel_eq c (good.range c (List.mem_of_getElem? found))⟩
      rw [List.getElem?_append_left (by rwa [List.length_map]), List.getElem?_map, found]
      rfl
    constructor
    · rintro ⟨track, j, found, _, p, member, rfl⟩
      obtain ⟨i, note, held, rfl⟩ := (mem_laid_filled filled inside).1 member
      obtain ⟨⟨⟩⟩ | ⟨n, read, rfl, pitch, vel, here⟩ := held
      have known := (good.notes n read).1
      have channel := List.getElem?_eq_getElem known
      obtain ⟨own, same⟩ := tracks n.track _ channel
      cases own.symm.trans found
      refine ⟨n, read, _, channel, (pieceOf_iff positive (good.notes n read).2.1).2
        ⟨same, i, note, ⟨rfl, pitch, vel, here⟩, rfl, rfl, ?_, ?_⟩⟩
      · dsimp only
        omega
      · exact max_vel note.vel (one_le_of_ne_zero _ (vel ▸ (good.notes n read).2.2.2.2.2))
    · rintro ⟨n, read, c, channel, piece⟩
      obtain ⟨same, i, note, held, pitch, start, len, vel⟩ := (pieceOf_iff positive (good.notes n read).2.1).1 piece
      obtain ⟨own, back⟩ := tracks n.track c channel
      have loud : max note.vel 1 = note.vel :=
        max_vel note.vel (one_le_of_ne_zero _ (held.2.2.1 ▸ (good.notes n read).2.2.2.2.2))
      refine ⟨_, n.track, own, rfl, _, (mem_laid_filled filled inside).2 ⟨i, note, .inr ⟨n, read, held⟩, rfl⟩, ?_⟩
      rw [back]
      cases sound
      dsimp only at same pitch start len vel ⊢
      rw [same, pitch, start, len, vel, loud]
      congr 1
      omega

end Imported

/-! ## There and back -/

/-- A note that is laid out, as it sounds on a channel. -/
def Laid.sound (channel : UInt8) (p : Laid) : Sound :=
  { channel, pitch := p.pitch, start := p.start, len := p.stop - p.start, vel := p.vel }

section Back

variable {song : SongData} {stepsPerPattern : Int}

theorem clampInt_pos (n : Int) : 0 < clampInt 1 maxSteps n := (@clampInt_mem 1 maxSteps (by decide) n).1

/-- The notes of the file that is written, read back. -/
theorem readFile (sheet : song.Sheet) (fits : song.Fits (clampInt 1 maxSteps stepsPerPattern)) (out : Import)
    (result : out = (toMidiFile song song.chain).tracks.foldl (readTrack (toMidiFile song song.chain).ppq) {}) :
    out.Good (clampInt 1 maxSteps stepsPerPattern) ∧ (∀ n, n ∈ out.notes ↔ ∃ index track,
      song.tracks[index]? = some track ∧ ∃ p ∈ laid song.toSong song.chain index, p.vel ≠ 0 ∧
        ∃ j : Nat, out.channels[j]? = some track.channel ∧ n = p.imported j) ∧
    ∀ index track, song.tracks[index]? = some track → ∀ p ∈ laid song.toSong song.chain index,
      ∃ j : Nat, out.channels[j]? = some track.channel := by
  have high : clampInt 1 maxSteps stepsPerPattern ≤ maxSteps := (@clampInt_mem 1 maxSteps (by decide) _).2
  have tempo : out = (song.tracks.zipIdx.filterMap fun e => partEvents song.toSong song.chain e.1 e.2).foldl
      (readTrack ticksPerQuarter) {} := result
  have known : ∀ e ∈ song.tracks.zipIdx, e.2 < song.tracks.length := by
    intro e member
    exact (List.getElem?_eq_some_iff.1 (List.mem_zipIdx_iff_getElem?.1 member)).1
  have channels : song.tracks.zipIdx.map (fun e => e.1.channel) = song.tracks.map Track.channel := by
    have plain : song.tracks.zipIdx.map Prod.fst = song.tracks := List.zipIdx_map_fst 0 song.tracks
    conv_rhs => rw [← plain, List.map_map]
    rfl
  have apart : (([] : List UInt8) ++ song.tracks.zipIdx.map fun e => e.1.channel).Nodup := by
    rw [List.nil_append, channels]
    exact sheet.channels
  have room : ([] : List UInt8).length + song.tracks.zipIdx.length ≤ maxTracks := by
    rw [List.length_zipIdx]
    have parts := sheet.parts
    simpa using parts
  obtain ⟨⟨more, grown, sub⟩, heard, notes⟩ :=
    readParts sheet high fits song.tracks.zipIdx {} known apart room rfl out tempo
  have mine : out.channels.Sublist (song.tracks.map Track.channel) := by
    rw [grown, ← channels]
    exact sub
  have read : ∀ n, n ∈ out.notes ↔ ∃ index track, song.tracks[index]? = some track ∧
      ∃ p ∈ laid song.toSong song.chain index, p.vel ≠ 0 ∧
        ∃ j, out.channels[j]? = some track.channel ∧ n = p.imported j := by
    intro n
    rw [notes]
    constructor
    · rintro (⟨⟨⟩⟩ | ⟨⟨track, index⟩, member, p, here⟩)
      exact ⟨index, track, List.mem_zipIdx_iff_getElem?.1 member, p, here⟩
    · rintro ⟨index, track, found, p, here⟩
      exact .inr ⟨(track, index), List.mem_zipIdx_iff_getElem?.2 found, p, here⟩
  refine ⟨⟨?_, fun c member => ?_, fun n member => ?_⟩, read, fun index track found p there => ?_⟩
  · have few := mine.length_le
    rw [List.length_map] at few
    exact few.trans sheet.parts
  · obtain ⟨track, _, rfl⟩ := List.mem_map.1 (mine.subset member)
    exact track.inRange
  · obtain ⟨index, track, found, p, there, loud, j, channel, rfl⟩ := (read n).1 member
    have inside := (List.getElem?_eq_some_iff.1 found).1
    obtain ⟨start, less, _, pitch⟩ := (laid_apart sheet high fits inside).1 p there
    have stop := fits index inside p there
    refine ⟨(List.getElem?_eq_some_iff.1 channel).1, start, ?_, pitch.1, pitch.2, loud⟩
    dsimp only [Laid.imported]
    omega
  · exact List.getElem?_of_mem (heard (track, index) (List.mem_zipIdx_iff_getElem?.2 found) (List.ne_nil_of_mem there))

/-- What the song that comes back sounds: the pieces of all notes with a velocity. -/
theorem sounds_reimported (sheet : song.Sheet) (fits : song.Fits (clampInt 1 maxSteps stepsPerPattern)) (sound : Sound) :
    (fromMidiFile (toMidiFile song song.chain) stepsPerPattern).Sounds sound ↔ ∃ index track,
      song.tracks[index]? = some track ∧ ∃ p ∈ laid song.toSong song.chain index, p.vel ≠ 0 ∧
        Sound.PieceOf (clampInt 1 maxSteps stepsPerPattern) (p.sound track.channel) sound := by
  obtain ⟨good, read, heard⟩ := readFile sheet fits _ rfl
  rw [sounds_of_import good]
  constructor
  · rintro ⟨n, member, c, channel, piece⟩
    obtain ⟨index, track, found, p, there, loud, j, own, rfl⟩ := (read n).1 member
    cases own.symm.trans channel
    exact ⟨index, track, found, p, there, loud, piece⟩
  · rintro ⟨index, track, found, p, there, loud, piece⟩
    obtain ⟨j, channel⟩ := heard index track found p there
    exact ⟨p.imported j, (read _).2 ⟨index, track, found, p, there, loud, j, channel, rfl⟩, track.channel, channel, piece⟩

/-- Every note has a piece. -/
theorem exists_piece {width : Int} (positive : 0 < width) {whole : Sound} (some_step : 0 < whole.len) :
    ∃ piece, Sound.PieceOf width whole piece ∧ piece.start = whole.start := by
  have sum := Int.mul_ediv_add_emod whole.start width
  have rest := Int.emod_nonneg whole.start positive.ne'
  have less := Int.emod_lt_of_pos whole.start positive
  generalize bar : whole.start / width = q at sum
  rw [mul_comm] at sum
  refine ⟨{ whole with len := min whole.len (q * width + width - whole.start) }, ⟨rfl, rfl, rfl, ?_, q, ?_, ?_⟩, rfl⟩
  · dsimp only
    omega
  · dsimp only
    omega
  · dsimp only
    rw [add_mul, one_mul]
    omega

theorem Sound.PieceOf.within {width : Int} {whole piece : Sound} (cut : Sound.PieceOf width whole piece) :
    whole.start ≤ piece.start ∧ piece.start < whole.start + whole.len := by
  obtain ⟨_, _, _, some_step, bar, start, stop⟩ := cut
  omega

/-- What the chain lays out of a part are the notes of its patterns. -/
theorem forall_laid {index : Nat} (ok : UInt8 → Prop) : ∀ (order : List Nat) (base : Int),
    (∀ p ∈ laidFrom song.toSong base order index, ok p.vel) ↔
      ∀ slot ∈ order, ∀ pattern, song.patterns[slot]? = some pattern → ∀ note ∈ pattern.track index, ok note.vel
  | [], base => by simp [laidFrom, startsFrom]
  | slot :: order, base => by
    rw [laidFrom_cons, List.forall_mem_append, forall_laid ok order, List.forall_mem_cons]
    refine and_congr_left fun _ => ?_
    unfold laidAt
    dsimp only
    cases song.patterns[slot]? with
    | none => simp
    | some pattern => simp

/-- **Export and import.** What the song that comes back sounds is what the original
sounds, cut at the pattern boundaries, exactly when of the notes in the chain those with a
velocity are the unmuted ones. -/
theorem reimported (sheet : song.Sheet) (fits : song.Fits (clampInt 1 maxSteps stepsPerPattern)) :
    (∀ sound, (fromMidiFile (toMidiFile song song.chain) stepsPerPattern).Sounds sound ↔
      ∃ whole, song.Sounds whole ∧ Sound.PieceOf (clampInt 1 maxSteps stepsPerPattern) whole sound) ↔
    ∀ (index : Nat) (track : Track), song.tracks[index]? = some track → ∀ slot ∈ song.chain, ∀ pattern,
      song.patterns[slot]? = some pattern → ∀ note ∈ pattern.track index, (note.vel ≠ 0 ↔ track.muted = false) := by
  have positive := clampInt_pos stepsPerPattern
  have high : clampInt 1 maxSteps stepsPerPattern ≤ maxSteps := (@clampInt_mem 1 maxSteps (by decide) _).2
  have back := fun sound => sounds_reimported sheet fits sound
  generalize clampInt 1 maxSteps stepsPerPattern = width at positive high fits back ⊢
  have in_patterns : ∀ (index : Nat) (track : Track),
      (∀ p ∈ laid song.toSong song.chain index, (p.vel ≠ 0 ↔ track.muted = false)) ↔ ∀ slot ∈ song.chain, ∀ pattern,
        song.patterns[slot]? = some pattern → ∀ note ∈ pattern.track index, (note.vel ≠ 0 ↔ track.muted = false) :=
    fun index track => forall_laid (fun vel => vel ≠ 0 ↔ track.muted = false) song.chain 0
  simp only [← in_patterns, back]
  have proper : ∀ {index : Nat} {track : Track}, song.tracks[index]? = some track →
      ∀ p ∈ laid song.toSong song.chain index, p.start < p.stop := fun found p there =>
    ((laid_apart sheet high fits (List.getElem?_eq_some_iff.1 found).1).1 p there).positive
  have one : ∀ {index index' : Nat} {track track' : Track}, song.tracks[index]? = some track →
      song.tracks[index']? = some track' → track.channel = track'.channel → index = index' := by
    intro index index' track track' found found' same
    have inside : index < (song.tracks.map Track.channel).length := by
      rw [List.length_map]
      exact (List.getElem?_eq_some_iff.1 found).1
    refine (List.getElem?_inj inside sheet.channels).1 ?_
    rw [List.getElem?_map, List.getElem?_map, found, found', Option.map_some, Option.map_some, same]
  constructor
  · intro same index track found p there
    constructor
    · intro loud
      have some_step : 0 < (p.sound track.channel).len := sub_pos.2 (proper found p there)
      obtain ⟨piece, cut, _⟩ := exists_piece positive some_step
      obtain ⟨whole, ⟨track', index', found', unmuted, p', _, rfl⟩, cut'⟩ :=
        (same piece).1 ⟨index, track, found, p, there, loud, cut⟩
      obtain rfl := one found found' (cut.channel.symm.trans cut'.channel)
      cases found.symm.trans found'
      exact unmuted
    · intro unmuted silent
      have some_step : 0 < ({ p.sound track.channel with vel := max p.vel 1 } : Sound).len :=
        sub_pos.2 (proper found p there)
      obtain ⟨piece, cut, _⟩ := exists_piece positive some_step
      obtain ⟨index', track', found', p', there', loud, cut'⟩ :=
        (same piece).2 ⟨_, ⟨track, index, found, unmuted, p, there, rfl⟩, cut⟩
      obtain rfl := one found found' (cut.channel.symm.trans cut'.channel)
      cases found.symm.trans found'
      have apart := (laid_apart sheet high fits (List.getElem?_eq_some_iff.1 found).1).2
      have symm : Std.Symm Apart := ⟨fun _ _ apart same => (apart same.symm).symm⟩
      have other : p ≠ p' := by
        rintro rfl
        exact loud silent
      have bounds := cut.within
      have bounds' := cut'.within
      dsimp only [Laid.sound] at bounds bounds'
      rcases apart.forall there there' other (cut.pitch.symm.trans cut'.pitch) with below | above <;> omega
  · intro heard sound
    constructor
    · rintro ⟨index, track, found, p, there, loud, cut⟩
      have unmuted := (heard index track found p there).1 loud
      refine ⟨p.sound track.channel, ⟨track, index, found, unmuted, p, there, ?_⟩, cut⟩
      rw [max_vel p.vel (one_le_of_ne_zero p.vel loud)]
      rfl
    · rintro ⟨whole, ⟨track, index, found, unmuted, p, there, rfl⟩, cut⟩
      have loud := (heard index track found p there).2 unmuted
      rw [max_vel p.vel (one_le_of_ne_zero p.vel loud)] at cut
      exact ⟨index, track, found, p, there, loud, cut⟩

end Back

section Poles

/-- One note on the first track, which is muted or not. -/
def solo (muted : Bool) : SongData :=
  { SongData.new with
    tracks := Track.of 0 muted :: SongData.new.tracks.tail
    patterns := [((Pattern.empty 16).addNote 0 { step := 3, pitch := 60, len := 2, vel := 100 }).1]
    chain := [0] }

theorem solo_sheet (muted : Bool) : (solo muted).Sheet where
  parts := by
    cases muted <;> decide
  channels := by
    cases muted <;> decide
  inside pattern member := by
    rw [List.mem_singleton.1 member]
    exact (addNote_valid (empty_valid 16) 0 _).inside
  apart := by
    cases muted <;> decide

theorem solo_fits (muted : Bool) : (solo muted).Fits (clampInt 1 maxSteps 4) := by
  unfold SongData.Fits
  cases muted <;> decide

theorem solo_laid (muted : Bool) {index : Nat} {p : Laid} (there : p ∈ laid (solo muted).toSong (solo muted).chain index) :
    index = 0 ∧ p = { start := 3, stop := 5, pitch := 60, vel := 100 } := by
  cases index with
  | zero => exact ⟨rfl, List.mem_singleton.1 there⟩
  | succ k =>
    have rest : (List.replicate 7 ([] : List Note)).getD k [] = [] := by
      rw [List.getD_eq_getElem?_getD, List.getElem?_replicate]
      split <;> rfl
    obtain ⟨slot, member, inner⟩ := List.mem_flatMap.1 there
    rw [List.mem_singleton.1 member] at inner
    obtain ⟨note, wrong, _⟩ := List.mem_map.1 inner
    change note ∈ (List.replicate 7 ([] : List Note)).getD k [] at wrong
    rw [rest] at wrong
    cases wrong

/-- The note of the first track sounds if that is not muted. -/
theorem solo_sounds : (solo false).Sounds { channel := 0, pitch := 60, start := 3, len := 2, vel := 100 } :=
  ⟨Track.of 0 false, 0, rfl, rfl, { start := 3, stop := 5, pitch := 60, vel := 100 }, by decide, rfl⟩

/-- A note across a bar line comes back as two. -/
theorem solo_returns :
    (fromMidiFile (toMidiFile (solo false) (solo false).chain) 4).Sounds
      { channel := 0, pitch := 60, start := 3, len := 1, vel := 100 } ∧
    (fromMidiFile (toMidiFile (solo false) (solo false).chain) 4).Sounds
      { channel := 0, pitch := 60, start := 4, len := 1, vel := 100 } := by
  have heard : ∀ (index : Nat) (track : Track), (solo false).tracks[index]? = some track →
      ∀ slot ∈ (solo false).chain, ∀ pattern, (solo false).patterns[slot]? = some pattern →
        ∀ note ∈ pattern.track index, (note.vel ≠ 0 ↔ track.muted = false) := by
    intro index track found
    refine (forall_laid (fun vel => vel ≠ 0 ↔ track.muted = false) (solo false).chain 0).1 fun p there => ?_
    obtain ⟨rfl, rfl⟩ := solo_laid false there
    cases found
    decide
  have back := (reimported (solo_sheet false) (solo_fits false)).2 heard
  exact ⟨(back _).2 ⟨_, solo_sounds, rfl, rfl, rfl, by decide, 0, by decide, by decide⟩,
    (back _).2 ⟨_, solo_sounds, rfl, rfl, rfl, by decide, 1, by decide, by decide⟩⟩

/-- A muted track comes back and is heard. -/
theorem muted_returns : ¬∀ sound, (fromMidiFile (toMidiFile (solo true) (solo true).chain) 4).Sounds sound ↔
    ∃ whole, (solo true).Sounds whole ∧ Sound.PieceOf 4 whole sound := by
  intro same
  have back : (fromMidiFile (toMidiFile (solo true) (solo true).chain) 4).Sounds
      { channel := 0, pitch := 60, start := 3, len := 1, vel := 100 } :=
    (sounds_reimported (solo_sheet true) (solo_fits true) _).2 ⟨0, Track.of 0 true, rfl,
      { start := 3, stop := 5, pitch := 60, vel := 100 }, by decide, by decide, rfl, rfl, rfl, by decide, 0, by decide,
      by decide⟩
  obtain ⟨_, ⟨track, index, found, unmuted, p, there, _⟩, _⟩ := (same _).1 back
  obtain ⟨rfl, _⟩ := solo_laid true there
  cases found
  cases unmuted

end Poles

end Wk.Sequence
