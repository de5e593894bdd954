/-
# Wk.Sequence.Recut -- notes cut into patterns

The import cuts a note at the pattern boundaries and gives each piece to its pattern.  The
pieces are what lies of the note in each bar (`mem_pieces`), and the patterns hold them and
nothing else (`Filled.notes`).
-/
import Wk.Sequence.Restored
import Wk.Sequence.Smf

namespace Wk.Sequence

set_option autoImplicit false

/-! ## Cutting -/

section Cut

variable {width : Int} {count : Nat}

/-- What lies of the steps from `at_` on, `left` of them, in bar `i`. -/
def InBar (width at_ left : Int) (i : Nat) (offset len : Int) : Prop :=
  0 < len ∧ i * width + offset = max at_ (i * width) ∧
    i * width + offset + len = min (at_ + left) (i * width + width)

theorem not_inBar {at_ left : Int} (none_left : left ≤ 0) (i : Nat) (offset len : Int) :
    ¬InBar width at_ left i offset len := by
  rintro ⟨some_step, start, stop⟩
  have low := le_max_left at_ (i * width)
  have high := min_le_left (at_ + left) (i * width + width)
  omega

/-- **The pieces of a note** are what lies of it in each bar.  Induction on its steps: the
first piece reaches to the end of its bar or of the note. -/
theorem mem_pieces (positive : 0 < width) : ∀ {fuel : Nat} {at_ left : Int}, 0 ≤ at_ → left ≤ fuel →
    at_ + left ≤ count * width → ∀ {i : Nat} {offset len : Int},
      (i, offset, len) ∈ pieces width count fuel at_ left ↔ InBar width at_ left i offset len
  | 0, at_, left, _, few, _, i, offset, len => by
    exact ⟨fun member => (by cases member), fun here => absurd here (not_inBar (by omega) i offset len)⟩
  | fuel + 1, at_, left, low, few, room, i, offset, len => by
    rw [pieces]
    split
    · next some_left =>
        obtain ⟨bar, here⟩ := Int.eq_ofNat_of_zero_le (Int.ediv_nonneg low positive.le)
        have whole := Int.mul_ediv_add_emod at_ width
        have rest := Int.emod_nonneg at_ positive.ne'
        have less := Int.emod_lt_of_pos at_ positive
        rw [here, mul_comm] at whole
        have known : bar < count := by
          by_contra beyond
          have more : (count : Int) * width ≤ bar * width :=
            mul_le_mul_of_nonneg_right (by omega) positive.le
          omega
        have index : (at_ / width).toNat = bar := by
          rw [here]
          rfl
        dsimp only
        rw [index, if_neg (by omega), List.mem_cons]
        generalize at_ % width = r at whole rest less ⊢
        have ih := @mem_pieces positive fuel (at_ + min left (width - r)) (left - min left (width - r)) (by omega)
          (by omega) (by omega) i offset len
        rw [ih]
        unfold InBar
        rcases lt_trichotomy i bar with before | rfl | after
        · have under : (i : Int) * width + width ≤ bar * width := by
            have next : ((i + 1 : Nat) : Int) * width ≤ bar * width :=
              mul_le_mul_of_nonneg_right (by omega) positive.le
            push_cast at next
            linarith
          constructor
          · rintro (same | ⟨some_step, start, stop⟩)
            · have wrong := congrArg Prod.fst same
              dsimp only at wrong
              omega
            · omega
          · rintro ⟨some_step, start, stop⟩
            omega
        · constructor
          · rintro (same | ⟨some_step, start, stop⟩)
            · cases same
              omega
            · omega
          · rintro ⟨some_step, start, stop⟩
            refine .inl ?_
            have first : offset = r := by omega
            have second : len = min left (width - r) := by omega
            rw [first, second]
        · have above : (bar : Int) * width + width ≤ i * width := by
            have next : ((bar + 1 : Nat) : Int) * width ≤ i * width :=
              mul_le_mul_of_nonneg_right (by omega) positive.le
            push_cast at next
            linarith
          constructor
          · rintro (same | ⟨some_step, start, stop⟩)
            · have wrong := congrArg Prod.fst same
              dsimp only at wrong
              omega
            · exact ⟨some_step, by omega, by omega⟩
          · rintro ⟨some_step, start, stop⟩
            exact .inr ⟨some_step, by omega, by omega⟩
    · next none_left =>
        exact ⟨fun member => (by cases member), fun here => absurd here (not_inBar (by omega) i offset len)⟩

end Cut

/-! ## Filling the patterns -/

/-- A bank of `count` patterns of `width` steps, with the notes that are said to be in it. -/
structure Filled (width : Int) (count : Nat) (holds : Nat → Nat → Note → Prop) (patterns : List Pattern) : Prop where
  length : patterns.length = count
  each : ∀ pattern ∈ patterns, pattern.steps = width ∧ pattern.notes.length = maxTracks
  notes : ∀ i j note, (∃ pattern, patterns[i]? = some pattern ∧ note ∈ pattern.track j) ↔ holds i j note

/-- The note lies where the import can put it. -/
structure Imported.Good (width : Int) (count : Nat) (n : Imported) : Prop where
  track : n.track < maxTracks
  start : 0 ≤ n.start
  stop : n.start + n.len ≤ count * width
  pitch : 0 ≤ n.pitch ∧ n.pitch ≤ 127
  vel : n.vel ≠ 0

/-- The piece of an imported note in bar `i`, as a note of track `j` there. -/
def Imported.Piece (width : Int) (n : Imported) (i j : Nat) (note : Note) : Prop :=
  j = n.track ∧ note.pitch = n.pitch ∧ note.vel = n.vel ∧ InBar width n.start n.len i note.step note.len

section Fill

variable {width : Int} {count : Nat} {holds : Nat → Nat → Note → Prop} {patterns : List Pattern}

theorem Filled.congr {holds' : Nat → Nat → Note → Prop} (filled : Filled width count holds patterns)
    (same : ∀ i j note, holds i j note ↔ holds' i j note) : Filled width count holds' patterns :=
  ⟨filled.length, filled.each, fun i j note => (filled.notes i j note).trans (same i j note)⟩

theorem filled_empty (range : minSteps ≤ width ∧ width ≤ maxSteps) :
    Filled width count (fun _ _ _ => False) (List.replicate count (Pattern.empty width)) := by
  refine ⟨List.length_replicate, fun pattern member => ?_, fun i j note => ?_⟩
  · rw [List.eq_of_mem_replicate member]
    exact ⟨clampInt_inside range, List.length_replicate⟩
  · rw [iff_false]
    rintro ⟨pattern, known, inner⟩
    rw [List.eq_of_mem_replicate (List.mem_of_getElem? known), Pattern.track, Pattern.empty,
      List.getD_eq_getElem?_getD, List.getElem?_replicate] at inner
    split at inner <;> cases inner

theorem one_le_of_ne_zero : ∀ v : UInt8, v ≠ 0 → 1 ≤ v := by decide +kernel

/-- A note is added to its track. -/
theorem track_addNote {pattern : Pattern} {t : Nat} {note : Note} (room : t < pattern.notes.length)
    (inside : note.Inside pattern.steps) (loud : note.vel ≠ 0) (j : Nat) (note' : Note) :
    note' ∈ ((pattern.addNote t note).1).track j ↔ note' ∈ pattern.track j ∨ j = t ∧ note' = note := by
  rw [Pattern.addNote, if_pos room, Note.inside_eq inside (one_le_of_ne_zero _ loud)]
  dsimp only [Pattern.track]
  rw [List.getD_eq_getElem?_getD, List.getD_eq_getElem?_getD, List.getElem?_modify]
  by_cases same : t = j
  · subst same
    rw [List.getElem?_eq_getElem room]
    simp
  · simp [same, Ne.symm same]

/-- A note is added to one of the patterns. -/
theorem Filled.add (filled : Filled width count holds patterns) {i t : Nat} {note : Note} (known : i < count)
    (room : t < maxTracks) (inside : note.Inside width) (loud : note.vel ≠ 0) :
    Filled width count (fun i' j note' => holds i' j note' ∨ i' = i ∧ j = t ∧ note' = note)
      (patterns.modify i fun pattern => (pattern.addNote t note).1) := by
  refine ⟨(List.length_modify ..).trans filled.length, fun pattern member => ?_, fun i' j note' => ?_⟩
  · obtain ⟨k, bound, rfl⟩ := List.mem_iff_getElem.1 member
    rw [List.length_modify] at bound
    obtain ⟨steps, rows⟩ := filled.each _ (List.getElem_mem bound)
    rw [List.getElem_modify]
    split
    · rw [addNote_steps]
      refine ⟨steps, ?_⟩
      unfold Pattern.addNote
      split
      · exact (List.length_modify ..).trans rows
      · exact rows
    · exact ⟨steps, rows⟩
  · rw [← filled.notes, List.getElem?_modify]
    by_cases same : i = i'
    · subst same
      rw [← filled.length] at known
      obtain ⟨steps, rows⟩ := filled.each _ (List.getElem_mem known)
      have added := track_addNote (rows.symm ▸ room : t < patterns[i].notes.length) (steps.symm ▸ inside) loud j note'
      simp [List.getElem?_eq_getElem known, added]
    · simp [same, Ne.symm same]

/-- The pieces of a note are added to theirs. -/
theorem Filled.addAll (t : Nat) (room : t < maxTracks) (noteOf : Nat × Int × Int → Note) :
    ∀ {es : List (Nat × Int × Int)} {holds : Nat → Nat → Note → Prop} {patterns : List Pattern},
      (∀ e ∈ es, e.1 < count ∧ (noteOf e).Inside width ∧ (noteOf e).vel ≠ 0) → Filled width count holds patterns →
      Filled width count (fun i j note => holds i j note ∨ ∃ e ∈ es, i = e.1 ∧ j = t ∧ note = noteOf e)
        (es.foldl (fun patterns e => patterns.modify e.1 fun pattern => (pattern.addNote t (noteOf e)).1) patterns)
  | [], _, _, _, filled => filled.congr fun i j note => by simp
  | e :: es, holds, patterns, good, filled => by
    obtain ⟨known, inside, loud⟩ := good e (List.mem_cons_self ..)
    have rest := Filled.addAll t room noteOf (fun e' member => good e' (List.mem_cons_of_mem _ member))
      (filled.add known room inside loud)
    refine rest.congr fun i j note => ?_
    simp only [List.mem_cons, exists_eq_or_imp, or_assoc]

theorem inBar_inside (positive : 0 < width) {at_ left : Int} {i : Nat} {offset len : Int}
    (here : InBar width at_ left i offset len) (room : at_ + left ≤ count * width) :
    i < count ∧ 0 ≤ offset ∧ 1 ≤ len ∧ offset + len ≤ width := by
  obtain ⟨some_step, start, stop⟩ := here
  refine ⟨?_, by omega, by omega, by omega⟩
  by_contra beyond
  have more : (count : Int) * width ≤ i * width := mul_le_mul_of_nonneg_right (by omega) positive.le
  omega

/-- An imported note is added, piece by piece. -/
theorem Filled.addPieces (positive : 0 < width) (filled : Filled width count holds patterns) {n : Imported}
    (good : n.Good width count) :
    Filled width count (fun i j note => holds i j note ∨ n.Piece width i j note) (addPieces width patterns n) := by
  have mem : ∀ {i : Nat} {offset len : Int}, (i, offset, len) ∈ pieces width count n.len.toNat n.start n.len ↔
      InBar width n.start n.len i offset len := mem_pieces positive good.start (by omega) good.stop
  have inside : ∀ e ∈ pieces width count n.len.toNat n.start n.len, e.1 < count ∧
      ({ step := e.2.1, pitch := n.pitch, len := e.2.2, vel := n.vel } : Note).Inside width ∧ n.vel ≠ 0 := by
    intro e member
    obtain ⟨known, low, long, last⟩ := inBar_inside positive (mem.1 member) good.stop
    exact ⟨known, ⟨low, long, last, good.pitch⟩, good.vel⟩
  have added := Filled.addAll n.track good.track
    (fun e => { step := e.2.1, pitch := n.pitch, len := e.2.2, vel := n.vel }) inside filled
  unfold Wk.Sequence.addPieces
  rw [filled.length]
  refine added.congr fun i j note => or_congr_right ?_
  constructor
  · rintro ⟨e, member, rfl, rfl, rfl⟩
    exact ⟨rfl, rfl, rfl, mem.1 member⟩
  · rintro ⟨rfl, pitch, vel, here⟩
    refine ⟨(i, note.step, note.len), mem.2 here, rfl, rfl, ?_⟩
    rw [← pitch, ← vel]

/-- All of them are. -/
theorem Filled.addNotes (positive : 0 < width) : ∀ {ns : List Imported} {holds : Nat → Nat → Note → Prop}
    {patterns : List Pattern}, (∀ n ∈ ns, n.Good width count) → Filled width count holds patterns →
      Filled width count (fun i j note => holds i j note ∨ ∃ n ∈ ns, n.Piece width i j note)
        (ns.foldl (Wk.Sequence.addPieces width) patterns)
  | [], _, _, _, filled => filled.congr fun i j note => by simp
  | n :: ns, holds, patterns, good, filled => by
    have rest := Filled.addNotes positive (fun n' member => good n' (List.mem_cons_of_mem _ member))
      (filled.addPieces positive (good n (List.mem_cons_self ..)))
    refine rest.congr fun i j note => ?_
    simp only [List.mem_cons, exists_eq_or_imp, or_assoc]

end Fill

end Wk.Sequence
