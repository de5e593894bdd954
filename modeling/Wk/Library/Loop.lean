/-
# Wk.Library.Loop -- loops that run until a turn returns

A `while` loop is its turn: from a state, one turn either goes on from another state or
returns.  `Ends` is a run of turns up to one that returns.  A turn that goes down along a
well-founded relation ends from everywhere, with whatever every turn keeps; two loops whose
turns are alike along the way of the first end alike.
-/
import Mathlib

namespace Wk.Library

set_option autoImplicit false

variable {σ σ' ρ ρ' : Type} {turn : σ → σ ⊕ ρ} {turn' : σ' → σ' ⊕ ρ'}

/-- The loop, entered at `s`, ends and returns `r`. -/
inductive Ends (turn : σ → σ ⊕ ρ) : σ → ρ → Prop
  | returns {s : σ} {r : ρ} (last : turn s = .inr r) : Ends turn s r
  | goes {s s' : σ} {r : ρ} (next : turn s = .inl s') (rest : Ends turn s' r) : Ends turn s r

/-- The loop, entered at `s`, comes by `m`. -/
def ComesBy (turn : σ → σ ⊕ ρ) : σ → σ → Prop := Relation.ReflTransGen fun s s' => turn s = .inl s'

theorem ComesBy.map {s m : σ} (f : σ → σ') (goes : ∀ s s₁, turn s = .inl s₁ → turn' (f s) = .inl (f s₁))
    (way : ComesBy turn s m) : ComesBy turn' (f s) (f m) :=
  Relation.ReflTransGen.lift f goes s m way

/-- Of two turns that are alike, one goes on exactly when the other does, and to the same state. -/
theorem goes_iff {R : ρ → ρ' → Prop} {t : σ ⊕ ρ} {t' : σ ⊕ ρ'} (alike : Sum.LiftRel Eq R t t') (s : σ) :
    t = .inl s ↔ t' = .inl s := by
  cases alike with
  | inl same => rw [Sum.inl.injEq, Sum.inl.injEq, same]
  | inr _ => exact iff_of_false nofun nofun

theorem returns_of_alike {R : ρ → ρ' → Prop} {t : σ ⊕ ρ} {r' : ρ'} (alike : Sum.LiftRel Eq R t (.inr r' : σ ⊕ ρ')) :
    ∃ r, t = .inr r ∧ R r r' := by
  cases alike with
  | inr related => exact ⟨_, rfl, related⟩

namespace Ends

theorem unique {s : σ} {r r' : ρ} (ended : Ends turn s r) (ended' : Ends turn s r') : r = r' := by
  induction ended with
  | returns last =>
    cases ended' with
    | returns last' => exact Sum.inr.inj (last.symm.trans last')
    | goes next' _ => cases last.symm.trans next'
  | goes next _ ih =>
    cases ended' with
    | returns last' => cases next.symm.trans last'
    | goes next' rest' =>
      cases next.symm.trans next'
      exact ih rest'

/-- A loop that goes down along a well-founded relation ends, and returns what its turns keep. -/
theorem of_lowers {R : σ → σ → Prop} (founded : WellFounded R) (f : σ → ρ)
    (lowers : ∀ s s', turn s = .inl s' → R s' s) (kept : ∀ s s', turn s = .inl s' → f s' = f s)
    (last : ∀ s r, turn s = .inr r → r = f s) (s : σ) : Ends turn s (f s) := by
  induction s using founded.induction with
  | _ s ih =>
    cases turned : turn s with
    | inr r =>
      rw [← last s r turned]
      exact .returns turned
    | inl s' =>
      rw [← kept s s' turned]
      exact .goes turned (ih s' (lowers s s' turned))

/-- A loop that returns something else at the end. -/
theorem map {s : σ} {r : ρ} (f : ρ → ρ') (ended : Ends turn s r) : Ends (fun s => (turn s).map id f) s (f r) := by
  induction ended with
  | returns last => exact .returns (by rw [last]; rfl)
  | goes next _ ih => exact .goes (by rw [next]; rfl) ih

/-- A loop ends with a turn that returns. -/
theorem last {s : σ} {r : ρ} (ended : Ends turn s r) : ∃ m, ComesBy turn s m ∧ turn m = .inr r := by
  induction ended with
  | @returns s r last => exact ⟨s, .refl, last⟩
  | goes next _ ih =>
    obtain ⟨m, way, last⟩ := ih
    exact ⟨m, .head next way, last⟩

/-- A loop ends as it does from where it comes by. -/
theorem of_comesBy {s m : σ} {r : ρ} (way : ComesBy turn s m) (ended : Ends turn m r) : Ends turn s r := by
  induction way using Relation.ReflTransGen.head_induction_on with
  | refl => exact ended
  | head goes _ ih => exact .goes goes ih

/-- Two loops in lock step: where the turns are alike all along the way of the first, the
loops return alike. -/
theorem alike {S : σ → σ' → Prop} {R : ρ → ρ' → Prop} {s : σ} {s' : σ'} {r : ρ} {r' : ρ'} (ended : Ends turn s r)
    (ended' : Ends turn' s' r') (start : S s s')
    (turns : ∀ m m', ComesBy turn s m → S m m' → Sum.LiftRel S R (turn m) (turn' m')) : R r r' := by
  induction ended generalizing s' with
  | @returns s r last =>
    have here := turns s s' .refl start
    rw [last] at here
    cases ended' with
    | returns last' =>
      rw [last'] at here
      exact Sum.liftRel_inr_inr.1 here
    | goes next' _ =>
      rw [next'] at here
      exact absurd here Sum.not_liftRel_inr_inl
  | @goes s s₁ r next rest ih =>
    have here := turns s s' .refl start
    rw [next] at here
    cases ended' with
    | returns last' =>
      rw [last'] at here
      exact absurd here Sum.not_liftRel_inl_inr
    | goes next' rest' =>
      rw [next'] at here
      exact ih rest' (Sum.liftRel_inl_inl.1 here) fun m m' later => turns m m' (.head next later)

end Ends

end Wk.Library
