/-
# Wk.Sequence.Restored -- a song comes back from its options

Each part of a song is read off the front of what was written for it, whatever follows; so
a song within the ranges comes back.  And whatever is read from any list, adding a note
puts it inside its pattern, so the song is within them.
-/
import Wk.Sequence.Saved

namespace Wk.Sequence

set_option autoImplicit false

open Library (FloatValue nearest_of_lt)

/-! ## Casts there and back -/

theorem asI32_asF32 {n : Int} (range : 0 ≤ n ∧ n < 2 ^ 24) : asI32 (asF32 n) = n := by
  obtain ⟨k, rfl⟩ := Int.eq_ofNat_of_zero_le range.1
  refine FloatValue.toInt_ofInt (nearest_of_lt (Int.ofNat_lt.1 (by exact_mod_cast range.2))) ?_
  have high := range.2
  omega

theorem asUsize_asF32 {n : Nat} (exact : FloatValue.Exact f32Bits n) (small : n < 2 ^ 64) :
    asUsize (asF32 n) = n := by
  unfold asUsize asF32
  rw [FloatValue.toInt_ofInt exact (by omega)]
  exact Int.toNat_natCast n

theorem asUsize_small {n : Nat} (small : n < 2 ^ 24) : asUsize (asF32 n) = n :=
  asUsize_asF32 (nearest_of_lt small) (small.trans (by norm_num))

theorem asU8_asF32 (b : UInt8) : asU8 (asF32 b.toNat) = b := by
  have byte := b.toNat_lt
  unfold asU8 asF32
  rw [FloatValue.toInt_ofInt (nearest_of_lt (byte.trans (by decide))) (by omega), Int.toNat_natCast]
  exact UInt8.ofNat_toNat

/-! ## What is read is within the ranges -/

/-- Every velocity is of seven bits, and none is 0. -/
def Pattern.Soft (pattern : Pattern) : Prop :=
  ∀ notes ∈ pattern.notes, ∀ note ∈ notes, 1 ≤ note.vel ∧ note.vel ≤ 127

theorem Note.inside_inside {steps : Int} (some_step : 1 ≤ steps) (note : Note) : (note.inside steps).Inside steps := by
  have step := @clampInt_mem 0 (steps - 1) (by omega) note.step
  have len := @clampInt_mem 1 (max (steps - clampInt 0 (steps - 1) note.step) 1) (le_max_right _ _) note.len
  refine ⟨step.1, len.1, ?_, clampInt_mem (by decide) _⟩
  change clampInt 0 (steps - 1) note.step + clampInt 1 _ note.len ≤ steps
  omega

theorem max_vel : ∀ vel : UInt8, 1 ≤ vel → max vel 1 = vel := by decide +kernel

/-- Clamping does not disturb a note that is inside. -/
theorem Note.inside_eq {note : Note} {steps : Int} (inside : note.Inside steps) (sounds : 1 ≤ note.vel) :
    note.inside steps = note := by
  obtain ⟨low, long, last, pitch⟩ := inside
  have step : clampInt 0 (steps - 1) note.step = note.step := clampInt_inside (by omega)
  have len : clampInt 1 (max (steps - note.step) 1) note.len = note.len := clampInt_inside (by omega)
  simp only [Note.inside, step, len, clampInt_inside pitch, max_vel note.vel sounds]

theorem addNote_steps (pattern : Pattern) (track : Nat) (note : Note) :
    (pattern.addNote track note).1.steps = pattern.steps := by
  unfold Pattern.addNote
  split <;> rfl

/-- What is in a pattern after a note was added: what was there, and the note inside. -/
theorem mem_addNote {pattern : Pattern} {track : Nat} {note : Note} {notes : List Note} {n : Note}
    (row : notes ∈ (pattern.addNote track note).1.notes) (member : n ∈ notes) :
    (∃ old ∈ pattern.notes, n ∈ old) ∨ n = note.inside pattern.steps := by
  unfold Pattern.addNote at row
  split at row
  · obtain ⟨i, bound, rfl⟩ := List.mem_iff_getElem.1 row
    rw [List.length_modify] at bound
    rw [List.getElem_modify] at member
    split at member
    · rcases List.mem_append.1 member with old | new
      · exact .inl ⟨_, List.getElem_mem bound, old⟩
      · exact .inr (List.mem_singleton.1 new)
    · exact .inl ⟨_, List.getElem_mem bound, member⟩
  · exact .inl ⟨notes, row, member⟩

theorem addNote_valid {pattern : Pattern} (valid : pattern.Valid) (track : Nat) (note : Note) :
    (pattern.addNote track note).1.Valid where
  steps := by
    rw [addNote_steps]
    exact valid.steps
  notes := by
    unfold Pattern.addNote
    split
    · exact (List.length_modify ..).trans valid.notes
    · exact valid.notes
  inside notes row n member := by
    rw [addNote_steps]
    rcases mem_addNote row member with ⟨old, known, there⟩ | rfl
    · exact valid.inside old known n there
    · exact Note.inside_inside valid.steps.1 note

theorem addNote_soft {pattern : Pattern} (soft : pattern.Soft) (track : Nat) {note : Note}
    (vel : 1 ≤ note.vel ∧ note.vel ≤ 127) : (pattern.addNote track note).1.Soft := by
  intro notes row n member
  rcases mem_addNote row member with ⟨old, known, there⟩ | rfl
  · exact soft old known n there
  · change 1 ≤ max note.vel 1 ∧ max note.vel 1 ≤ 127
    rwa [max_vel note.vel vel.1]

theorem empty_valid (steps : Int) : (Pattern.empty steps).Valid where
  steps := clampInt_mem (by decide) steps
  notes := List.length_replicate
  inside notes row n member := by
    rw [List.eq_of_mem_replicate row] at member
    cases member

theorem empty_soft (steps : Int) : (Pattern.empty steps).Soft := by
  intro notes row n member
  rw [List.eq_of_mem_replicate row] at member
  cases member

theorem clamped_vel {n : Int} (range : 1 ≤ n ∧ n ≤ 127) :
    1 ≤ UInt8.ofNat n.toNat ∧ UInt8.ofNat n.toNat ≤ 127 := by
  have size : (UInt8.ofNat n.toNat).toNat = n.toNat := by
    rw [UInt8.toNat_ofNat']
    omega
  rw [UInt8.le_iff_toNat_le, UInt8.le_iff_toNat_le, size]
  change 1 ≤ n.toNat ∧ n.toNat ≤ 127
  omega

theorem readTracks_length : ∀ {n : Nat} {r : List FloatValue} {tracks : List Track} {rest : List FloatValue},
    readTracks n r = some (tracks, rest) → tracks.length = n
  | 0, _, _, _, read => by
    cases read
    rfl
  | n + 1, r, tracks, rest, read => by
    simp only [readTracks, Option.bind_eq_bind, Option.bind_eq_some_iff, Prod.exists] at read
    obtain ⟨_, _, _, _, _, _, _, _, later, same⟩ := read
    cases same
    exact congrArg (· + 1) (readTracks_length later)

/-- Reading notes keeps a pattern within the ranges.  Induction on the count. -/
theorem readNotes_good : ∀ {n : Nat} {pattern : Pattern} {r : List FloatValue} {found : Pattern} {rest : List FloatValue},
    pattern.Valid → pattern.Soft → readNotes n pattern r = some (found, rest) → found.Valid ∧ found.Soft
  | 0, _, _, _, _, valid, soft, read => by
    cases read
    exact ⟨valid, soft⟩
  | n + 1, pattern, r, found, rest, valid, soft, read => by
    simp only [readNotes, Option.bind_eq_bind, Option.bind_eq_some_iff, Prod.exists] at read
    obtain ⟨track, _, _, step, _, _, pitch, _, _, len, _, _, vel, _, _, later⟩ := read
    exact readNotes_good (addNote_valid valid _ _)
      (addNote_soft soft _ (clamped_vel (clampInt_mem (by decide) _))) later

theorem readPatterns_good : ∀ {n : Nat} {r : List FloatValue} {patterns : List Pattern} {rest : List FloatValue},
    readPatterns n r = some (patterns, rest) →
      patterns.length = n ∧ ∀ pattern ∈ patterns, pattern.Valid ∧ pattern.Soft
  | 0, _, _, _, read => by
    cases read
    exact ⟨rfl, fun _ member => by cases member⟩
  | n + 1, r, patterns, rest, read => by
    simp only [readPatterns, Option.bind_eq_bind, Option.bind_eq_some_iff, Prod.exists] at read
    obtain ⟨steps, _, _, count, _, _, pattern, _, notes, others, _, later, same⟩ := read
    cases same
    obtain ⟨length, all⟩ := readPatterns_good later
    exact ⟨congrArg (· + 1) length,
      List.forall_mem_cons.2 ⟨readNotes_good (empty_valid _) (empty_soft _) notes, all⟩⟩

/-- A song as it can be read: within the ranges, and its tempo too unless it is not a number. -/
structure SongData.Read (song : SongData) : Prop where
  valid : song.Valid
  soft : ∀ pattern ∈ song.patterns, pattern.Soft
  chain : song.chain.length ≤ maxChain
  bpm : song.bpm = .nan ∨ ∃ x, song.bpm = .finite x ∧ minBpm ≤ x ∧ x ≤ maxBpm

theorem clampBpm_cases (bpm : FloatValue) :
    clampBpm bpm = .nan ∨ ∃ x, clampBpm bpm = .finite x ∧ minBpm ≤ x ∧ x ≤ maxBpm :=
  FloatValue.clamp_cases (by decide) bpm

theorem new_read : SongData.new.Read where
  valid := ⟨rfl, by decide, (fun _ member => by cases member), List.forall_mem_singleton.2 (empty_valid 16)⟩
  soft := List.forall_mem_singleton.2 (empty_soft 16)
  chain := Nat.zero_le _
  bpm := .inr ⟨120, rfl, by decide, by decide⟩

/-- Where a song has one pattern within the ranges and no chain. -/
theorem read_one {pattern : Pattern} (good : pattern.Valid ∧ pattern.Soft) (bpm : FloatValue) :
    SongData.Read { SongData.new with bpm := clampBpm bpm, patterns := [pattern] } where
  valid := ⟨rfl, by simp [maxPatterns], (fun _ member => by cases member), List.forall_mem_singleton.2 good.1⟩
  soft := List.forall_mem_singleton.2 good.2
  chain := Nat.zero_le _
  bpm := clampBpm_cases bpm

theorem fromFlatNotes_read (bpm : FloatValue) (steps : Int) (body : List FloatValue) (stride : Nat) :
    (fromFlatNotes bpm steps body stride).Read := by
  have good : ∀ (chunks : List (List FloatValue)) (pattern : Pattern), pattern.Valid ∧ pattern.Soft →
      ∀ note : List FloatValue → Note, (∀ t, 1 ≤ (note t).vel ∧ (note t).vel ≤ 127) →
        (chunks.foldl (fun pattern t => (pattern.addNote 0 (note t)).1) pattern).Valid ∧
          (chunks.foldl (fun pattern t => (pattern.addNote 0 (note t)).1) pattern).Soft := by
    intro chunks
    induction chunks with
    | nil => exact fun _ good _ _ => good
    | cons t chunks ih =>
      intro pattern good note vel
      exact ih _ ⟨addNote_valid good.1 0 (note t), addNote_soft good.2 0 (vel t)⟩ note vel
  refine read_one (good _ _ ⟨empty_valid steps, empty_soft steps⟩ _ fun t => ?_) bpm
  dsimp only
  split
  · exact clamped_vel (clampInt_mem (by decide) _)
  · decide

theorem fromOptionsV2_read {body : List FloatValue} {song : SongData} (read : fromOptionsV2 body = some song) :
    song.Read := by
  simp only [fromOptionsV2, Option.bind_eq_bind, Option.bind_eq_some_iff, Prod.exists] at read
  obtain ⟨bpm, _, _, nTracks, _, _, nPatterns, _, _, nChain, _, _, tracks, r, readT, patterns, _, readP, same⟩ := read
  obtain ⟨length, all⟩ := readPatterns_good readP
  have some_pattern : patterns.isEmpty = false := by
    cases patterns with
    | nil => simp only [List.length_nil] at length; omega
    | cons => rfl
  have many : 1 ≤ patterns.length ∧ patterns.length ≤ maxPatterns := by
    unfold maxPatterns at length ⊢
    omega
  have parts := readTracks_length readT
  have defaults : SongData.new.tracks.length = maxTracks := rfl
  rw [some_pattern] at same
  cases same
  refine ⟨⟨?_, many, fun index member => ?_, fun pattern known => (all pattern known).1⟩,
    fun pattern known => (all pattern known).2, ?_, clampBpm_cases bpm⟩
  · change (tracks ++ SongData.new.tracks.drop _).length = maxTracks
    rw [List.length_append, List.length_drop, parts, defaults]
    omega
  · exact of_decide_eq_true (List.mem_filter.1 member).2
  · refine (List.length_filter_le ..).trans ?_
    rw [List.length_map, List.length_take]
    omega

theorem fromOptions_read (vals : List FloatValue) : (fromOptions vals).Read := by
  unfold fromOptions
  split
  · split
    · next tag version rest _ =>
        cases read : fromOptionsV2 rest with
        | none => exact new_read
        | some song => exact fromOptionsV2_read read
    · split
      · split
        · exact fromFlatNotes_read ..
        · exact fromFlatNotes_read ..
      · exact fromFlatNotes_read ..
  · exact fromFlatNotes_read ..

/-! ## What was written comes back -/

theorem min_channel_eq : ∀ channel : UInt8, channel < 16 → min channel 15 = channel := by decide +kernel

/-- A track comes back from its two values. -/
theorem track_back (track : Track) : Track.of (asU8 (asF32 track.channel.toNat))
    ((if track.muted then FloatValue.finite 1 else .finite 0) ≠ .finite 0) = track := by
  obtain ⟨channel, muted, inRange⟩ := track
  simp only [Track.of, asU8_asF32, min_channel_eq channel inRange, Track.mk.injEq, true_and]
  cases muted <;> simp

theorem readTracks_flat : ∀ (tracks : List Track) (r : List FloatValue),
    readTracks tracks.length (tracks.flatMap trackOptions ++ r) = some (tracks, r)
  | [], r => rfl
  | track :: tracks, r => by
    simp only [List.length_cons, List.flatMap_cons, trackOptions, List.cons_append, List.nil_append, readTracks,
      next, Option.bind_eq_bind, Option.bind_some, readTracks_flat tracks r]
    rw [track_back]

/-- A note is put on its track. -/
def put (rows : List (List Note)) (e : Nat × Note) : List (List Note) := rows.modify e.1 (· ++ [e.2])

/-- A numbered note that lies in a pattern of so many steps, and can be read back. -/
def Placed (steps : Int) (e : Nat × Note) : Prop :=
  e.1 < maxTracks ∧ e.2.Inside steps ∧ 1 ≤ e.2.vel ∧ e.2.vel ≤ 127

/-- A velocity comes back from its value. -/
theorem vel_back {vel : UInt8} (loud : 1 ≤ vel ∧ vel ≤ 127) :
    UInt8.ofNat (clampInt 1 127 (asI32 (asF32 vel.toNat))).toNat = vel := by
  obtain ⟨low, high⟩ := loud
  rw [UInt8.le_iff_toNat_le] at low high
  change 1 ≤ vel.toNat at low
  change vel.toNat ≤ 127 at high
  rw [asI32_asF32 (by omega), clampInt_inside (by omega), Int.toNat_natCast]
  exact UInt8.ofNat_toNat

theorem addNote_inside {pattern : Pattern} {e : Nat × Note} (rows : pattern.notes.length = maxTracks)
    (placed : Placed pattern.steps e) :
    (pattern.addNote e.1 e.2).1 = { pattern with notes := put pattern.notes e } := by
  obtain ⟨onTrack, inside, loud⟩ := placed
  rw [Pattern.addNote, if_pos (by rwa [rows]), Note.inside_eq inside loud.1]
  rfl

/-- Notes are read off one after another, and put on their tracks.  Induction on them. -/
theorem readNotes_flat : ∀ (notes : List (Nat × Note)) {pattern : Pattern} (r : List FloatValue),
    pattern.steps ≤ maxSteps → pattern.notes.length = maxTracks → (∀ e ∈ notes, Placed pattern.steps e) →
    readNotes notes.length pattern (notes.flatMap noteOptions ++ r) =
      some ({ pattern with notes := notes.foldl put pattern.notes }, r)
  | [], pattern, r, _, _, _ => rfl
  | (track, note) :: notes, pattern, r, few, rows, placed => by
    have first := placed _ (List.mem_cons_self ..)
    obtain ⟨onTrack, ⟨low, long, last, pitch⟩, loud⟩ := placed _ (List.mem_cons_self ..)
    dsimp only at onTrack low long last pitch loud
    unfold maxTracks at onTrack
    unfold maxSteps at few
    have track' : min (asUsize (asF32 track)) (maxTracks - 1) = track := by
      rw [asUsize_small (by omega)]
      unfold maxTracks
      omega
    simp only [List.length_cons, List.flatMap_cons, noteOptions, List.cons_append, List.nil_append, readNotes,
      next, Option.bind_eq_bind, Option.bind_some, track', vel_back loud]
    rw [asI32_asF32 (by omega), asI32_asF32 (by omega), asI32_asF32 (by omega)]
    have added := addNote_inside rows first
    dsimp only at added
    have later := @readNotes_flat notes { pattern with notes := put pattern.notes (track, note) } r few
      (by simpa [put] using rows) fun e member => placed e (List.mem_cons_of_mem _ member)
    rw [added, later]
    rfl

/-! A pattern's notes go back on their tracks. -/

theorem put_row (rest : List (List Note)) (kept : List Note) (note : Note) : ∀ done : List (List Note),
    put (done ++ kept :: rest) (done.length, note) = done ++ (kept ++ [note]) :: rest
  | [] => rfl
  | row :: done => congrArg (row :: ·) (put_row rest kept note done)

/-- Notes of one track all go to its row. -/
theorem foldl_put_row (done rest : List (List Note)) : ∀ (row kept : List Note),
    (row.map fun note => (done.length, note)).foldl put (done ++ kept :: rest) = done ++ (kept ++ row) :: rest
  | [], kept => by simp
  | note :: row, kept => by
    rw [List.map_cons, List.foldl_cons, put_row, foldl_put_row done rest row (kept ++ [note]), List.append_assoc]
    rfl

/-- Rows filled one after another, from empty ones. -/
theorem foldl_put_rows : ∀ (rows done : List (List Note)),
    ((rows.zipIdx done.length).flatMap fun e => e.1.map fun note => (e.2, note)).foldl put
      (done ++ List.replicate rows.length []) = done ++ rows
  | [], done => by simp
  | row :: rows, done => by
    have later := foldl_put_rows rows (done ++ [row])
    rw [List.length_append, List.length_singleton, List.append_assoc] at later
    rw [List.zipIdx_cons, List.flatMap_cons, List.foldl_append, List.length_cons, List.replicate_succ,
      foldl_put_row, List.nil_append]
    rw [List.cons_append, List.nil_append, List.append_assoc, List.cons_append, List.nil_append] at later
    exact later

theorem length_numbered (pattern : Pattern) :
    pattern.numbered.length = (pattern.notes.map List.length).sum := by
  have plain : pattern.notes.zipIdx.map Prod.fst = pattern.notes := List.zipIdx_map_fst 0 pattern.notes
  rw [Pattern.numbered, List.length_flatMap]
  conv_rhs => rw [← plain, List.map_map]
  simp only [List.length_map]
  rfl

theorem numbered_placed {pattern : Pattern} (valid : pattern.Valid) (soft : pattern.Soft) :
    ∀ e ∈ pattern.numbered, Placed pattern.steps e := by
  intro e member
  obtain ⟨⟨notes, track⟩, row, inner⟩ := List.mem_flatMap.1 member
  obtain ⟨note, known, rfl⟩ := List.mem_map.1 inner
  have place : pattern.notes[track]? = some notes := List.mem_zipIdx_iff_getElem?.1 row
  have there := List.mem_of_getElem? place
  exact ⟨valid.notes ▸ (List.getElem?_eq_some_iff.1 place).1, valid.inside notes there note known,
    soft notes there note known⟩

/-- The notes of a pattern, put on empty tracks, are its tracks. -/
theorem numbered_put {pattern : Pattern} (valid : pattern.Valid) :
    pattern.numbered.foldl put (List.replicate maxTracks []) = pattern.notes := by
  have rows := foldl_put_rows pattern.notes []
  rwa [List.nil_append, List.nil_append, valid.notes] at rows

theorem readPatterns_flat : ∀ (patterns : List Pattern) (r : List FloatValue),
    (∀ pattern ∈ patterns, pattern.Valid) → (∀ pattern ∈ patterns, pattern.Soft) →
    (∀ pattern ∈ patterns, (pattern.notes.map List.length).sum < 2 ^ 64 ∧
      FloatValue.Exact f32Bits (pattern.notes.map List.length).sum) →
    readPatterns patterns.length (patterns.flatMap patternOptions ++ r) = some (patterns, r)
  | [], r, _, _, _ => rfl
  | pattern :: patterns, r, valid, soft, exact => by
    have good := valid pattern (List.mem_cons_self ..)
    obtain ⟨small, counted⟩ := exact pattern (List.mem_cons_self ..)
    have few := good.steps
    unfold minSteps maxSteps at few
    have same : Pattern.empty pattern.steps = { pattern with notes := List.replicate maxTracks [] } := by
      simp only [Pattern.empty, clampInt_inside good.steps]
    have count : asUsize (asF32 ((pattern.notes.map List.length).sum : Nat)) = pattern.numbered.length := by
      rw [asUsize_asF32 counted small, length_numbered]
    have notes := @readNotes_flat pattern.numbered { pattern with notes := List.replicate maxTracks [] }
      (patterns.flatMap patternOptions ++ r) few.2 List.length_replicate
      (numbered_placed good (soft pattern (List.mem_cons_self ..)))
    dsimp only at notes
    rw [numbered_put good] at notes
    simp only [List.length_cons, List.flatMap_cons, patternOptions, List.cons_append, List.nil_append,
      List.append_assoc, readPatterns, next, Option.bind_eq_bind, Option.bind_some, count]
    rw [asI32_asF32 (by omega), same, notes]
    have later := readPatterns_flat patterns r (fun p member => valid p (List.mem_cons_of_mem _ member))
      (fun p member => soft p (List.mem_cons_of_mem _ member))
      fun p member => exact p (List.mem_cons_of_mem _ member)
    simp only [Option.bind_some, later]

/-- A song within the ranges comes back. -/
theorem fromOptions_toOptions {song : SongData} (valid : song.Valid) (savable : song.Savable) :
    fromOptions (toOptions song) = song := by
  obtain ⟨x, tempo, low, high⟩ := savable.bpm
  have tagged : True ∧ saveVersion.atLeast 2 = true := ⟨trivial, by decide⟩
  have few := valid.patterns
  have short := savable.chain
  have eight := valid.tracks
  unfold maxPatterns at few
  unfold maxChain at short
  unfold maxTracks at eight
  have nTracks : min (asUsize (asF32 song.tracks.length)) maxTracks = song.tracks.length := by
    rw [asUsize_small (by omega)]
    unfold maxTracks
    omega
  have nPatterns : max (min (asUsize (asF32 song.patterns.length)) maxPatterns) 1 = song.patterns.length := by
    rw [asUsize_small (by omega)]
    unfold maxPatterns
    omega
  have nChain : min (asUsize (asF32 song.chain.length)) maxChain = song.chain.length := by
    rw [asUsize_small (by omega)]
    unfold maxChain
    omega
  have chain : (song.chain.map fun index : Nat => asF32 index).map asUsize = song.chain := by
    rw [List.map_map]
    refine (List.map_congr_left fun index member => ?_).trans (List.map_id _)
    have inside := valid.chain index member
    exact asUsize_small (by omega)
  have kept : song.chain.filter (· < song.patterns.length) = song.chain :=
    List.filter_eq_self.2 fun index member => decide_eq_true (valid.chain index member)
  have tracks := readTracks_flat song.tracks (song.chain.map (fun index : Nat => asF32 index) ++
    song.patterns.flatMap patternOptions)
  have patterns := readPatterns_flat song.patterns [] valid.each savable.vel savable.count
  rw [List.append_nil] at patterns
  have some_pattern : song.patterns.isEmpty = false := by
    cases same : song.patterns with
    | nil => rw [same] at few; simp at few
    | cons => rfl
  have noDefaults : SongData.new.tracks.drop song.tracks.length = [] := by
    rw [eight]
    rfl
  have back : fromOptionsV2 ([song.bpm, asF32 song.tracks.length, asF32 song.patterns.length, asF32 song.chain.length] ++
      song.tracks.flatMap trackOptions ++ song.chain.map (fun index : Nat => asF32 index) ++
      song.patterns.flatMap patternOptions) = some song := by
    have size : (song.chain.map fun index : Nat => asF32 index).length = song.chain.length := List.length_map _
    simp only [fromOptionsV2, next, List.cons_append, List.nil_append, List.append_assoc, Option.bind_eq_bind,
      Option.bind_some, nTracks, nPatterns, nChain, tracks]
    rw [List.take_left' size, List.drop_left' size, patterns, chain]
    simp only [Option.bind_some, some_pattern, Bool.false_eq_true, if_false, kept, noDefaults, List.append_nil]
    rw [tempo, clampBpm, FloatValue.clamp_inside ⟨low, high⟩, ← tempo]
  unfold toOptions fromOptions
  simp only [List.cons_append, List.nil_append] at back ⊢
  rw [if_pos tagged, back]
  rfl

/-- **A saved song is restored**, and whatever is restored is a song. -/
theorem persisted :
    (∀ song : SongData, song.Valid → song.Savable → fromOptions (toOptions song) = song) ∧
      ∀ vals : List FloatValue, (fromOptions vals).Read :=
  ⟨fun _ valid savable => fromOptions_toOptions valid savable, fromOptions_read⟩

/-- Two bars, one with a note on a muted part, and a chain that goes back. -/
def ballad : SongData :=
  { SongData.new with
    bpm := .finite 90
    tracks := SongData.new.tracks.map fun track => { track with muted := track.channel = 3 }
    patterns := [(((Pattern.empty 16).addNote 0 { step := 0, pitch := 60, len := 4, vel := 100 }).1.addNote 3
      { step := 8, pitch := 36, len := 8, vel := 127 }).1, Pattern.empty 7]
    chain := [1, 0, 0] }

theorem persisted_ballad : fromOptions (toOptions ballad) = ballad ∧ (fromOptions (toOptions ballad)).Read := by
  refine ⟨persisted.1 ballad ⟨rfl, by decide, by decide, ?_⟩ ⟨⟨90, rfl, by decide, by decide⟩, by decide, by decide, ?_⟩,
    persisted.2 _⟩
  · refine List.forall_mem_cons.2 ⟨?_, List.forall_mem_singleton.2 (empty_valid 7)⟩
    exact addNote_valid (addNote_valid (empty_valid 16) _ _) _ _
  · unfold FloatValue.Exact
    decide +kernel

/-! Songs that are clamped on the way back: a note as loud as a byte can say, a tempo that
was never set through `set_bpm`, and a chain longer than a chain can be. -/

def loudSong : SongData :=
  { SongData.new with patterns := [((Pattern.empty 16).addNote 0 { step := 0, pitch := 60, len := 1, vel := 200 }).1] }

def fastSong : SongData := { SongData.new with bpm := .finite 400 }

def longSong : SongData := { SongData.new with chain := List.replicate 65 0 }

theorem loud_changed :
    (loudSong.Valid ∧ fromOptions (toOptions loudSong) ≠ loudSong) ∧
    (fastSong.Valid ∧ fromOptions (toOptions fastSong) ≠ fastSong) ∧
    (longSong.Valid ∧ fromOptions (toOptions longSong) ≠ longSong) := by
  have fresh := new_read.valid
  refine ⟨⟨⟨rfl, by decide, (fun _ member => by cases member), List.forall_mem_singleton.2 ?_⟩, by decide +kernel⟩,
    ⟨⟨fresh.tracks, fresh.patterns, fresh.chain, fresh.each⟩, by decide +kernel⟩,
    ⟨⟨fresh.tracks, fresh.patterns, fun index member => ?_, fresh.each⟩, by decide +kernel⟩⟩
  · exact addNote_valid (empty_valid 16) _ _
  · rw [List.eq_of_mem_replicate member]
    decide

end Wk.Sequence
