/-
# Wk.Sequence.Unrolled -- the chain as one long pattern

In song mode a position is found by walking the chain, one entry after another.  What it
finds is what stands at that place in the concatenation of the entries' patterns, which is
repeated in both directions (`locate_unrolled`); entries pointing past the bank are not
there.
-/
import Wk.Sequence

namespace Wk.Sequence

set_option autoImplicit false

/-- The steps of a pattern, each with the pattern it is of. -/
def Song.stepsOf (song : Song) (index : Nat) : List (Nat × Int) :=
  match song.patterns[index]? with
  | none => []
  | some pattern => (List.range pattern.steps.toNat).map fun i : Nat => (index, (i : Int))

/-- The patterns the chain plays: its entries inside the bank. -/
def Song.bars (song : Song) : List Nat := song.chain.filter (· < song.patterns.length)

/-- The chain as the concatenation of its patterns. -/
def Song.unrolled (song : Song) : List (Nat × Int) := song.bars.flatMap song.stepsOf

/-- The chain's entries inside the bank, each with its place in the chain. -/
def Song.entries (song : Song) : List (Nat × Nat) :=
  (song.chain.zipIdx.filter fun e => e.1 < song.patterns.length).map Prod.swap

section Walk

variable {song : Song}

theorem mem_entries {e : Nat × Nat} (member : e ∈ song.entries) :
    song.chain[e.1]? = some e.2 ∧ e.2 < song.patterns.length := by
  obtain ⟨⟨pattern, place⟩, found, rfl⟩ := List.mem_map.1 member
  obtain ⟨known, inside⟩ := List.mem_filter.1 found
  exact ⟨List.mem_zipIdx_iff_getElem?.1 known, of_decide_eq_true inside⟩

theorem map_snd_entries : song.entries.map Prod.snd = song.bars := by
  have plain : song.chain.zipIdx.map Prod.fst = song.chain := List.zipIdx_map_fst 0 song.chain
  rw [Song.entries, Song.bars, List.map_map]
  conv_rhs => rw [← plain, List.filter_map]
  rfl

/-- How long an entry's pattern is. -/
def lengthOf (song : Song) (index : Nat) : Int := (song.patterns[index]?).elim 0 Pattern.steps

theorem length_stepsOf (index : Nat) : ((song.stepsOf index).length : Int) = lengthOf song index := by
  unfold Song.stepsOf lengthOf
  cases song.patterns[index]? with
  | none => rfl
  | some pattern =>
    have positive := pattern.positive
    simp only [Option.elim, List.length_map, List.length_range]
    omega

/-- The step at a place of a pattern is that place. -/
theorem stepsOf_getElem? {index i : Nat} (inside : (i : Int) < lengthOf song index) :
    (song.stepsOf index)[i]? = some (index, (i : Int)) := by
  unfold lengthOf at inside
  unfold Song.stepsOf
  cases found : song.patterns[index]? with
  | none =>
    rw [found] at inside
    exact absurd inside (by simp)
  | some pattern =>
    rw [found] at inside
    dsimp only [Option.elim] at inside ⊢
    rw [List.getElem?_map, List.getElem?_range (by omega)]
    rfl

/-- Walking entries finds what stands at the position in their concatenation.  Induction on
them: each either holds the position or is passed. -/
theorem locateIn_flat : ∀ (entries : List (Nat × Nat)) (pos : Int), 0 ≤ pos →
    (locateIn song entries pos).map (fun found => (found.pattern, found.step)) =
      (entries.flatMap fun e => song.stepsOf e.2)[pos.toNat]?
  | [], pos, _ => rfl
  | (place, index) :: entries, pos, low => by
    have len : ((song.stepsOf index).length : Int) = lengthOf song index := length_stepsOf index
    rw [List.flatMap_cons, locateIn]
    dsimp only
    split
    · next inside =>
        change pos < lengthOf song index at inside
        rw [List.getElem?_append_left (by omega), stepsOf_getElem? (by omega)]
        simp [Int.toNat_of_nonneg low]
    · next passed =>
        change ¬pos < lengthOf song index at passed
        change (locateIn song entries (pos - lengthOf song index)).map _ = _
        rw [List.getElem?_append_right (by omega), locateIn_flat entries _ (by omega)]
        congr 1
        omega

/-- What is found is an entry, and a step of its pattern. -/
theorem locateIn_inside : ∀ {entries : List (Nat × Nat)} {pos : Int} {found : Position}, 0 ≤ pos →
    locateIn song entries pos = some found →
    (found.chainIndex, found.pattern) ∈ entries ∧ 0 ≤ found.step ∧ found.step < lengthOf song found.pattern
  | [], _, _, _, none_left => by cases none_left
  | (place, index) :: entries, pos, found, low, located => by
    rw [locateIn] at located
    split at located
    · next inside =>
        cases located
        exact ⟨List.mem_cons_self .., low, inside⟩
    · next passed =>
        have below := locateIn_inside (not_lt.1 passed |> sub_nonneg.2) located
        exact ⟨List.mem_cons_of_mem _ below.1, below.2⟩

/-- The total the walk starts from is the length of the concatenation. -/
theorem total_eq (entries : List (Nat × Nat)) :
    (entries.map fun e => (song.patterns[e.2]?).elim 0 Pattern.steps).sum =
      ((entries.flatMap fun e => song.stepsOf e.2).length : Int) := by
  induction entries with
  | nil => rfl
  | cons e entries ih =>
    rw [List.map_cons, List.sum_cons, List.flatMap_cons, List.length_append, ih]
    push_cast
    rw [length_stepsOf]
    rfl

theorem unrolled_eq : song.unrolled = song.entries.flatMap fun e => song.stepsOf e.2 := by
  rw [Song.unrolled, ← map_snd_entries, List.flatMap_map]

end Walk

/-- **Positions in song mode** are those of the concatenation, repeated both ways; where
something is found, it is an entry of the chain and a step of its pattern.  In pattern mode
the step is the remainder. -/
theorem locate_unrolled (song : Song) (abs : Int) :
    (locate song .song abs).map (fun found => (found.pattern, found.step)) =
      song.unrolled[(abs % song.unrolled.length).toNat]? ∧
    (∀ found, locate song .song abs = some found → song.chain[found.chainIndex]? = some found.pattern ∧
      ∃ pattern, song.patterns[found.pattern]? = some pattern ∧ 0 ≤ found.step ∧ found.step < pattern.steps) ∧
    (∀ index pattern, song.patterns[index]? = some pattern →
      locate song (.pattern index) abs = some { pattern := index, step := abs % pattern.steps, chainIndex := 0 } ∧
        0 ≤ abs % pattern.steps ∧ abs % pattern.steps < pattern.steps) ∧
    ∀ index, song.patterns[index]? = none → locate song (.pattern index) abs = none := by
  have total := @total_eq song song.entries
  rw [← unrolled_eq] at total
  have whole : locate song .song abs =
      if (song.unrolled.length : Int) ≤ 0 then none
      else locateIn song song.entries (abs % song.unrolled.length) := by
    rw [← total]
    rfl
  refine ⟨?_, fun found located => ?_, fun index pattern known => ?_, fun index missing => ?_⟩
  · rw [whole]
    split
    · next empty =>
        have nothing : song.unrolled = [] := List.eq_nil_of_length_eq_zero (by omega)
        rw [nothing]
        rfl
    · next some_step =>
        rw [locateIn_flat song.entries _ (Int.emod_nonneg _ (by omega)), ← unrolled_eq]
  · rw [whole] at located
    split at located
    · cases located
    · next some_step =>
        obtain ⟨member, low, high⟩ := locateIn_inside (Int.emod_nonneg _ (by omega)) located
        obtain ⟨place, inside⟩ := mem_entries member
        refine ⟨place, _, List.getElem?_eq_getElem inside, low, ?_⟩
        rwa [lengthOf, List.getElem?_eq_getElem inside] at high
  · refine ⟨?_, Int.emod_nonneg _ pattern.positive.ne', Int.emod_lt_of_pos _ pattern.positive⟩
    rw [locate, known]
    rfl
  · rw [locate, missing]
    rfl

end Wk.Sequence
