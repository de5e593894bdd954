/-
# Wk.Library.Reach -- a walk over the list it is growing

`walk adj` reads a list item by item and appends the neighbours it has not seen, so
the list ends up holding what is reachable from its first item, in the order of
discovery.  `Walking` is the loop invariant: no item twice, everything reached, and
every item already read has all its neighbours in the list.

* `walk_complete`: enough fuel ends the walk, over any finite set `adj` stays in.
* `Walking.mem_iff`: what the walk ends with is what is reachable.
-/
import Mathlib

namespace Wk.Library

set_option autoImplicit false
set_option linter.unusedSectionVars false

variable {α : Type} [DecidableEq α]

/-- Append the items that are not there yet. -/
def absorb (seen ys : List α) : List α :=
  ys.foldl (fun seen y => if y ∈ seen then seen else seen ++ [y]) seen

/-- Read `seen` from index `i` on, absorbing the neighbours of each item read;
`none` when the fuel runs out first. -/
def walk (adj : α → List α) : Nat → List α → Nat → Option (List α)
  | 0, _, _ => none
  | fuel + 1, seen, i =>
    match seen[i]? with
    | none => some seen
    | some x => walk adj fuel (absorb seen (adj x)) (i + 1)

/-! ## Absorbing -/

theorem prefix_absorb (seen ys : List α) : seen <+: absorb seen ys := by
  induction ys generalizing seen with
  | nil => exact List.prefix_rfl
  | cons y ys ih =>
    have grown : seen <+: if y ∈ seen then seen else seen ++ [y] := by
      split
      · exact List.prefix_rfl
      · exact List.prefix_append _ _
    exact grown.trans (ih _)

theorem mem_absorb {seen ys : List α} {x : α} : x ∈ absorb seen ys ↔ x ∈ seen ∨ x ∈ ys := by
  induction ys generalizing seen with
  | nil => simp [absorb]
  | cons y ys ih =>
    have rest : absorb seen (y :: ys) = absorb (if y ∈ seen then seen else seen ++ [y]) ys := rfl
    rw [rest, ih]
    by_cases known : y ∈ seen
    · rw [if_pos known, List.mem_cons]
      exact ⟨Or.imp_right Or.inr, fun here => here.elim .inl fun new =>
        new.elim (fun same => .inl (same ▸ known)) .inr⟩
    · rw [if_neg known, List.mem_append, List.mem_singleton, List.mem_cons, or_assoc]

theorem nodup_absorb {seen : List α} (nodup : seen.Nodup) (ys : List α) : (absorb seen ys).Nodup := by
  induction ys generalizing seen with
  | nil => exact nodup
  | cons y ys ih =>
    have grown : (if y ∈ seen then seen else seen ++ [y]).Nodup := by
      split
      · exact nodup
      · next new => exact nodup.append (List.nodup_singleton y) (List.disjoint_singleton.2 new)
    exact ih grown

/-! ## Walking -/

/-- The loop invariant: `seen` grew from `start`, and its first `i` items are read. -/
structure Walking (adj : α → List α) (start : α) (seen : List α) (i : Nat) : Prop where
  first : seen.head? = some start
  nodup : seen.Nodup
  reached : ∀ x ∈ seen, Relation.ReflTransGen (fun a b => b ∈ adj a) start x
  closed : ∀ x ∈ seen.take i, ∀ y ∈ adj x, y ∈ seen

namespace Walking

variable {adj : α → List α} {start : α} {seen : List α} {i : Nat}

theorem begin (adj : α → List α) (start : α) : Walking adj start [start] 0 where
  first := rfl
  nodup := List.nodup_singleton start
  reached x member := by
    rw [List.mem_singleton.1 member]
  closed x member := absurd member List.not_mem_nil

/-- One item is read. -/
theorem step (walking : Walking adj start seen i) {x : α} (found : seen[i]? = some x) :
    Walking adj start (absorb seen (adj x)) (i + 1) where
  first := by
    obtain ⟨more, grown⟩ := prefix_absorb seen (adj x)
    rw [← grown, List.head?_append, walking.first]
    rfl
  nodup := nodup_absorb walking.nodup _
  reached y member := by
    have here : x ∈ seen := List.mem_of_getElem? found
    rcases mem_absorb.1 member with known | new
    · exact walking.reached y known
    · exact (walking.reached x here).tail new
  closed y member z near := by
    obtain ⟨more, grown⟩ := prefix_absorb seen (adj x)
    have inside : i < seen.length := (List.getElem?_eq_some_iff.1 found).1
    rw [← grown, List.take_append_of_le_length inside, List.take_add_one, List.mem_append] at member
    rcases member with read | now
    · exact mem_absorb.2 (.inl (walking.closed y read z near))
    · rw [found, Option.toList_some, List.mem_singleton] at now
      exact mem_absorb.2 (.inr (now ▸ near))

/-- The list never outgrows a closed set that holds the start. -/
theorem length_le (walking : Walking adj start seen i) {all : Finset α}
    (closed : ∀ x ∈ all, ∀ y ∈ adj x, y ∈ all) (inside : start ∈ all) : seen.length ≤ all.card := by
  have stays : ∀ x, Relation.ReflTransGen (fun a b => b ∈ adj a) start x → x ∈ all := by
    intro x reach
    induction reach with
    | refl => exact inside
    | tail _ near ih => exact closed _ ih _ near
  rw [← List.toFinset_card_of_nodup walking.nodup]
  exact Finset.card_le_card fun x member => stays x (walking.reached x (List.mem_toFinset.1 member))

/-- What a finished walk holds is what is reachable. -/
theorem mem_iff (walking : Walking adj start seen seen.length) {x : α} :
    x ∈ seen ↔ Relation.ReflTransGen (fun a b => b ∈ adj a) start x := by
  refine ⟨walking.reached x, fun reach => ?_⟩
  have closed := walking.closed
  rw [List.take_length] at closed
  induction reach with
  | refl => exact List.mem_of_mem_head? walking.first
  | tail _ near ih => exact closed _ ih _ near

end Walking

/-- **The walk ends**, over any finite set that holds the start and is closed under
`adj`. -/
theorem walk_complete {adj : α → List α} {start : α} (all : Finset α)
    (closed : ∀ x ∈ all, ∀ y ∈ adj x, y ∈ all) (inside : start ∈ all) :
    ∀ {fuel : Nat} {seen : List α} {i : Nat}, Walking adj start seen i → i ≤ seen.length →
      all.card < fuel + i →
      ∃ out, walk adj fuel seen i = some out ∧ Walking adj start out out.length
  | 0, seen, i, walking, le, enough => by
    have few : seen.length ≤ all.card := walking.length_le closed inside
    omega
  | fuel + 1, seen, i, walking, le, enough => by
    unfold walk
    split
    · next done =>
        have last : seen.length = i := le_antisymm (List.getElem?_eq_none_iff.1 done) le
        exact ⟨seen, rfl, last ▸ walking⟩
    · next x found =>
        have unread : i < seen.length := (List.getElem?_eq_some_iff.1 found).1
        have grown : seen.length ≤ (absorb seen (adj x)).length :=
          (prefix_absorb seen (adj x)).length_le
        exact walk_complete all closed inside (walking.step found) (by omega) (by omega)

end Wk.Library
