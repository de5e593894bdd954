/-
# Wk.Sequence.Sounding -- what a song sounds is what the transport plays

`SongData.Sounds` lays the notes of the chain end to end; the transport finds its place in
the chain step by step.  On every step of the chain the transport wants exactly the keys of
the notes that sound then.
-/
import Wk.Sequence.Balance
import Wk.Sequence.Reimport

namespace Wk.Sequence

set_option autoImplicit false

section Sounding

variable {song : SongData} {index : Nat}

/-- The notes laid out over a step are those that cover it in its pattern.  Induction on the
order: the step is in the first pattern, or further on. -/
theorem laid_covers (sheet : song.Sheet) (ok : Int → Prop) : ∀ (order : List Nat) (base pos : Int), 0 ≤ pos →
    ((∃ p ∈ laidFrom song.toSong base order index, (p.start ≤ base + pos ∧ base + pos < p.stop) ∧ ok p.pitch) ↔
      ∃ slot step, (order.flatMap song.toSong.stepsOf)[pos.toNat]? = some (slot, step) ∧ ∃ pattern,
        song.patterns[slot]? = some pattern ∧ ∃ note ∈ pattern.track index,
          note.covers step pattern.steps = true ∧ ok note.pitch)
  | [], base, pos, _ => by simp [laidFrom, startsFrom]
  | slot :: order, base, pos, low => by
    obtain ⟨here, _⟩ := @laidAt_apart song index sheet slot base
    obtain ⟨there, _⟩ := @laidFrom_apart song index sheet order (base + lengthOf song.toSong slot)
    have length : ((song.toSong.stepsOf slot).length : Int) = lengthOf song.toSong slot := length_stepsOf slot
    rw [laidFrom_cons, List.flatMap_cons]
    by_cases inside : pos < lengthOf song.toSong slot
    · have found : (song.toSong.stepsOf slot ++ order.flatMap song.toSong.stepsOf)[pos.toNat]? = some (slot, pos) := by
        rw [List.getElem?_append_left (by omega), stepsOf_getElem? (by omega), Int.toNat_of_nonneg low]
      rw [found]
      constructor
      · rintro ⟨p, member, during, passes⟩
        rcases List.mem_append.1 member with now | later
        · unfold laidAt at now
          dsimp only at now
          cases known : song.patterns[slot]? with
          | none =>
            rw [known] at now
            cases now
          | some pattern =>
            rw [known] at now
            obtain ⟨note, inner, rfl⟩ := List.mem_map.1 now
            refine ⟨slot, pos, rfl, pattern, known, note, inner, ?_, passes⟩
            dsimp only [Note.end_] at during
            simp only [Note.covers, Bool.and_eq_true, decide_eq_true_eq]
            omega
        · have bounds := there p later
          omega
      · rintro ⟨slot', step, same, pattern, known, note, inner, covers, passes⟩
        cases same
        simp only [Note.covers, Bool.and_eq_true, decide_eq_true_eq] at covers
        have laid : { start := base + note.step, stop := base + note.end_ pattern.steps, pitch := note.pitch
                      vel := note.vel } ∈ laidAt song.toSong index (slot, base) := by
          unfold laidAt
          dsimp only
          rw [known]
          exact List.mem_map.2 ⟨note, inner, rfl⟩
        refine ⟨_, List.mem_append_left _ laid, ?_, passes⟩
        dsimp only [Note.end_]
        omega
    · have rest := laid_covers sheet ok order (base + lengthOf song.toSong slot) (pos - lengthOf song.toSong slot)
        (by omega)
      have place : (pos - lengthOf song.toSong slot).toNat = pos.toNat - (song.toSong.stepsOf slot).length := by
        omega
      have same : base + lengthOf song.toSong slot + (pos - lengthOf song.toSong slot) = base + pos := by
        omega
      rw [place, same] at rest
      rw [List.getElem?_append_right (by omega), ← rest]
      constructor
      · rintro ⟨p, member, during, passes⟩
        rcases List.mem_append.1 member with now | later
        · have bounds := here p now
          omega
        · exact ⟨p, later, during, passes⟩
      · rintro ⟨p, later, during, passes⟩
        exact ⟨p, List.mem_append_right _ later, during, passes⟩

theorem flatMap_stepsOf (song : Song) : song.chain.flatMap song.stepsOf = song.unrolled := by
  unfold Song.unrolled Song.bars
  induction song.chain with
  | nil => rfl
  | cons slot chain ih =>
    rw [List.flatMap_cons, ih, List.filter_cons]
    split
    · rw [List.flatMap_cons]
    · next missing =>
        have absent : song.patterns[slot]? = none := List.getElem?_eq_none (not_lt.1 (by simpa using missing))
        rw [Song.stepsOf, absent]
        rfl

/-- Inside the chain the transport is where the concatenation says. -/
theorem locate_inside {song : Song} {abs : Int} (low : 0 ≤ abs) (high : abs < song.unrolled.length) :
    (locate song .song abs).map (fun found => (found.pattern, found.step)) = song.unrolled[abs.toNat]? := by
  have total := @total_eq song song.entries
  rw [← unrolled_eq] at total
  have whole : locate song .song abs =
      if (song.unrolled.length : Int) ≤ 0 then none
      else locateIn song song.entries (abs % song.unrolled.length) := by
    rw [← total]
    rfl
  rw [whole, if_neg (by omega), Int.emod_eq_of_lt low high, locateIn_flat song.entries abs low, ← unrolled_eq]

/-- **The transport plays the sounds of the song**: on every step of the chain the keys
covered are those of the notes that sound then. -/
theorem covered_iff_sounds (sheet : song.Sheet) {abs : Int} (low : 0 ≤ abs) (high : abs < song.toSong.unrolled.length)
    (k : Key) : Covered song.toSong .song [] abs k ↔ ∃ sound, song.Sounds sound ∧
      (sound.start ≤ abs ∧ abs < sound.start + sound.len) ∧ k = (sound.channel, UInt8.ofInt sound.pitch) := by
  have place := locate_inside low high
  rw [← flatMap_stepsOf] at place
  constructor
  · rintro ⟨pos, pattern, located, known, _, ⟨track, index⟩, member, unmuted, note, inner, covers, same⟩
    rw [located, Option.map_some] at place
    obtain ⟨p, there, during, passes⟩ := (@laid_covers song index sheet
      (fun pitch => k = (track.channel, UInt8.ofInt pitch)) song.chain 0 abs low).2
      ⟨pos.pattern, pos.step, place.symm, pattern, known, note, inner, covers, same⟩
    refine ⟨_, ⟨track, index, List.mem_zipIdx_iff_getElem?.1 member, unmuted, p, there, rfl⟩, ?_, passes⟩
    dsimp only
    omega
  · rintro ⟨_, ⟨track, index, found, unmuted, p, there, rfl⟩, during, same⟩
    dsimp only at during same
    obtain ⟨slot, step, there, pattern, known, note, inner, covers, passes⟩ := (@laid_covers song index sheet
      (fun pitch => k = (track.channel, UInt8.ofInt pitch)) song.chain 0 abs low).1 ⟨p, there, by omega, same⟩
    rw [there] at place
    obtain ⟨pos, located, here⟩ := Option.map_eq_some_iff.1 place
    cases here
    exact ⟨pos, pattern, located, known, List.not_mem_nil, (track, index), List.mem_zipIdx_iff_getElem?.2 found,
      unmuted, note, inner, covers, passes⟩

/-- On step 3 the one note sounds. -/
theorem solo_covered : Covered (solo false).toSong .song [] 3 (0, 60) :=
  (covered_iff_sounds (solo_sheet false) (by decide) (by decide) _).2 ⟨_, solo_sounds, by decide, rfl⟩

end Sounding

end Wk.Sequence
